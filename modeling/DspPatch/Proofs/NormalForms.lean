import DspPatch.Proofs.CodeShape
import Mathlib.Data.List.Chain
import Mathlib.Data.List.Induction

/-!
Normal forms of code. Lines of code in normal form are trimmed and not blank. The lines of code of a text are what stands
between its line feeds, trimmed (`codeLines_eq`), so two texts joined by a line feed have the lines of both. A sequence is in
normal form if its code is and no code follows code; these are the sequences that can be built (`built_iff_normal`). Pushing
two texts is pushing them joined (`pushCode_pushCode`), so a sequence may be pushed as a whole or in parts and `++` is
associative (`append_assoc`).
-/
namespace DspPatch.Text

/-- A line with a character, and none that is blank at either end. -/
structure NormalLine (line : List Char) : Prop where
  nonempty : line ≠ []
  start : ∀ c ∈ line.head?, isBlank c = false
  stop : ∀ c ∈ line.getLast?, isBlank c = false

/-- Code text that is not empty and has no blank or untrimmed line. Lines are what stands between line feeds: after a line
    feed at the end there is an empty line, and a carriage return before one is a blank at the end of its line. -/
structure NormalCode (text : String) : Prop where
  nonempty : text ≠ ""
  lines : ∀ line ∈ text.toList.splitOn '\n', NormalLine line

/-! ## Trimming -/

theorem dropWhile_isBlank_of_start {cs : List Char} (start : ∀ c ∈ cs.head?, isBlank c = false) :
    cs.dropWhile isBlank = cs := by
  cases cs with
  | nil => rfl
  | cons c rest => rw [List.dropWhile_cons, start c rfl, if_neg Bool.false_ne_true]

theorem start_dropWhile_isBlank (cs : List Char) : ∀ c ∈ (cs.dropWhile isBlank).head?, isBlank c = false := by
  intro c first
  have found := List.head?_dropWhile_not isBlank cs
  rw [Option.mem_def.mp first] at found
  exact found

theorem NormalLine.trim_eq {line : List Char} (normal : NormalLine line) : trim line = line := by
  have back : line.reverse.dropWhile isBlank = line.reverse :=
    dropWhile_isBlank_of_start (by rw [List.head?_reverse]; exact normal.stop)
  rw [trim, trimStart, dropWhile_isBlank_of_start normal.start, trimEnd, back, List.reverse_reverse]

theorem prefix_of_trimEnd (cs : List Char) : trimEnd cs <+: cs := by
  rw [trimEnd, ← List.reverse_suffix, List.reverse_reverse]
  exact List.dropWhile_suffix isBlank

theorem normalLine_trim {line : List Char} (nonempty : trim line ≠ []) : NormalLine (trim line) := by
  refine ⟨nonempty, fun c first => ?_, fun c last => ?_⟩
  · obtain ⟨blanks, whole⟩ : trim line <+: trimStart line := prefix_of_trimEnd (trimStart line)
    have same : (trimStart line).head? = (trim line).head? := by rw [← whole, List.head?_append_of_ne_nil _ nonempty]
    exact start_dropWhile_isBlank line c (same.symm ▸ first)
  · rw [trim, trimEnd, List.getLast?_reverse] at last
    exact start_dropWhile_isBlank _ c last

/-- A blank character at the end is trimmed away. -/
theorem trim_concat {c : Char} (blank : isBlank c = true) (line : List Char) : trim (line ++ [c]) = trim line := by
  rw [trim, trim, trimStart, trimStart, List.dropWhile_append]
  split
  next none =>
    rw [List.isEmpty_iff.mp none, List.dropWhile_cons_of_pos blank]
    rfl
  next =>
    rw [trimEnd, List.reverse_append, List.reverse_singleton, List.singleton_append, List.dropWhile_cons_of_pos blank,
      trimEnd]

theorem trim_dropReturn (line : List Char) : trim (dropReturn line) = trim line := by
  unfold dropReturn
  split
  next last =>
    obtain ⟨front, rfl⟩ := List.getLast?_eq_some_iff.mp last
    rw [List.dropLast_concat, trim_concat (by decide)]
  next => rfl

/-! ## Lines of code -/

/-- Lines trimmed, without those that are empty then. -/
def trimmedLines (found : List (List Char)) : List (List Char) := (found.map trim).filter (fun line => !line.isEmpty)

theorem trimmedLines_cons (line : List Char) (rest : List (List Char)) :
    trimmedLines (line :: rest) = trimmedLines [line] ++ trimmedLines rest := by
  rw [trimmedLines, ← List.singleton_append, List.map_append, List.filter_append]
  rfl

theorem trimmedLines_of_normal {found : List (List Char)} (normal : ∀ line ∈ found, NormalLine line) :
    trimmedLines found = found := by
  have trimmed : found.map trim = found :=
    (List.map_congr_left (fun line member => (normal line member).trim_eq)).trans (List.map_id found)
  rw [trimmedLines, trimmed, List.filter_eq_self]
  intro line member
  simpa using (normal line member).nonempty

theorem normalLine_of_mem_codeLines {cs line : List Char} (member : line ∈ codeLines cs) : NormalLine line := by
  obtain ⟨listed, nonempty⟩ := List.mem_filter.mp member
  obtain ⟨whole, _, rfl⟩ := List.mem_map.mp listed
  exact normalLine_trim (by simpa using nonempty)

/-- Carriage returns and a line feed at the end make no difference to the lines of code. -/
theorem codeLines_eq (cs : List Char) : codeLines cs = trimmedLines (cs.splitOn '\n') := by
  have from_line (line : List Char) (unbroken : '\n' ∉ line.reverse) :
      trimmedLines (linesFrom line cs) = trimmedLines ((line.reverse ++ cs).splitOn '\n') := by
    induction cs generalizing line with
    | nil =>
      rw [linesFrom, List.append_nil, List.splitOn_eq_singleton unbroken]
      split
      next none =>
        rw [List.isEmpty_iff.mp none]
        rfl
      next => rfl
    | cons c rest ih =>
      rw [linesFrom]
      split
      next feed =>
        have own : trimmedLines [dropReturn line.reverse] = trimmedLines [line.reverse] := by
          rw [trimmedLines, List.map_singleton, trim_dropReturn, trimmedLines, List.map_singleton]
        rw [feed, List.splitOn_append_cons_self_of_not_mem unbroken, trimmedLines_cons, own, ih [] List.not_mem_nil,
          trimmedLines_cons line.reverse (rest.splitOn '\n')]
        rfl
      next other =>
        rw [ih (c :: line) (by simpa [Ne.symm other] using unbroken), List.reverse_cons, List.append_assoc,
          List.singleton_append]
  exact from_line [] List.not_mem_nil

theorem codeLines_append (a b : List Char) : codeLines (a ++ '\n' :: b) = codeLines a ++ codeLines b := by
  rw [codeLines_eq, codeLines_eq, codeLines_eq, List.splitOn_append_cons_self, trimmedLines, List.map_append,
    List.filter_append]
  rfl

theorem joinLines_eq_intercalate (found : List (List Char)) : joinLines found = ['\n'].intercalate found := by
  induction found with
  | nil => rfl
  | cons line rest ih =>
    cases rest with
    | nil => simp [joinLines]
    | cons next rest =>
      rw [List.intercalate_cons_cons, ← ih, List.append_assoc]
      rfl

theorem joinLines_append {first second : List (List Char)} (left : first ≠ []) (right : second ≠ []) :
    joinLines (first ++ second) = joinLines first ++ '\n' :: joinLines second := by
  induction first with
  | nil => exact absurd rfl left
  | cons line rest ih =>
    cases rest with
    | nil =>
      cases second with
      | nil => exact absurd rfl right
      | cons next second => rfl
    | cons next rest =>
      show line ++ '\n' :: joinLines (next :: rest ++ second) = line ++ '\n' :: joinLines (next :: rest) ++ _
      rw [ih (List.cons_ne_nil _ _), List.append_assoc, List.cons_append]

/-! ## Code in normal form -/

theorem toList_normalCode (text : String) : (normalCode text).toList = joinLines (codeLines text.toList) :=
  String.toList_ofList

theorem normalCode_eq_empty_iff {text : String} : normalCode text = "" ↔ codeLines text.toList = [] := by
  rw [← String.toList_eq_nil_iff, toList_normalCode]
  constructor
  · intro none
    cases found : codeLines text.toList with
    | nil => rfl
    | cons line rest =>
      have normal : NormalLine line := normalLine_of_mem_codeLines (found ▸ List.mem_cons_self)
      rw [found] at none
      cases rest with
      | nil => exact absurd none normal.nonempty
      | cons next rest => exact absurd none (List.append_ne_nil_of_right_ne_nil line (List.cons_ne_nil _ _))
  · intro none
    rw [none]
    rfl

theorem splitOn_normalCode {text : String} (some_code : normalCode text ≠ "") :
    (normalCode text).toList.splitOn '\n' = codeLines text.toList := by
  rw [toList_normalCode, joinLines_eq_intercalate]
  exact List.splitOn_intercalate _ (fun line => newline_not_mem_codeLines) (mt normalCode_eq_empty_iff.mpr some_code)

theorem toList_joined (a b : String) : (a ++ "\n" ++ b).toList = a.toList ++ '\n' :: b.toList := by
  rw [String.toList_append, String.toList_append, List.append_assoc]
  rfl

theorem normalCode_joined {a b : String} (left : normalCode a ≠ "") (right : normalCode b ≠ "") :
    normalCode (a ++ "\n" ++ b) = normalCode a ++ "\n" ++ normalCode b := by
  rw [ne_eq, normalCode_eq_empty_iff] at left right
  rw [← String.toList_inj, toList_joined, toList_normalCode, toList_normalCode, toList_normalCode, toList_joined,
    codeLines_append, joinLines_append left right]

theorem normalCode_joined_of_left {a : String} (blank : normalCode a = "") (b : String) :
    normalCode (a ++ "\n" ++ b) = normalCode b := by
  rw [normalCode, toList_joined, codeLines_append, normalCode_eq_empty_iff.mp blank, List.nil_append, normalCode]

theorem normalCode_joined_of_right {b : String} (blank : normalCode b = "") (a : String) :
    normalCode (a ++ "\n" ++ b) = normalCode a := by
  rw [normalCode, toList_joined, codeLines_append, normalCode_eq_empty_iff.mp blank, List.append_nil, normalCode]

theorem NormalCode.of_normalCode {text : String} (some_code : normalCode text ≠ "") : NormalCode (normalCode text) := by
  refine ⟨some_code, fun line member => ?_⟩
  rw [splitOn_normalCode some_code] at member
  exact normalLine_of_mem_codeLines member

theorem NormalCode.normalCode_eq {text : String} (normal : NormalCode text) : normalCode text = text := by
  rw [← String.toList_inj, toList_normalCode, codeLines_eq, trimmedLines_of_normal normal.lines, joinLines_eq_intercalate,
    List.intercalate_splitOn]

theorem normalCode_normalCode (text : String) : normalCode (normalCode text) = normalCode text := by
  by_cases blank : normalCode text = ""
  · rw [blank]
    rfl
  · exact (NormalCode.of_normalCode blank).normalCode_eq

theorem NormalCode.joined {a b : String} (left : NormalCode a) (right : NormalCode b) : NormalCode (a ++ "\n" ++ b) := by
  refine ⟨fun empty => ?_, fun line member => ?_⟩
  · have none := congrArg String.toList empty
    simp at none
  · rw [toList_joined, List.splitOn_append_cons_self, List.mem_append] at member
    exact member.elim (left.lines line) (right.lines line)

end DspPatch.Text

namespace DspPatch

def Element.isCode : Element → Bool
  | .code _ => true
  | _ => false

theorem Element.exists_text_of_isCode {element : Element} (isCode : element.isCode = true) : ∃ text, element = .code text := by
  cases element with
  | code text => exact ⟨text, rfl⟩
  | _ => cases isCode

namespace Sequence
open Text Element
variable {s : Sequence}

/-- No code follows code, and all code is in normal form. -/
structure Normal (s : Sequence) : Prop where
  merged : s.content.IsChain (fun a b => ¬(a.isCode = true ∧ b.isCode = true))
  codes : ∀ text, .code text ∈ s.content → NormalCode text

/-- A sequence that can be built. What is pushed or converted may be any element, text or list of elements, and what is put
    behind a sequence any sequence. -/
inductive Built : Sequence → Prop where
  | empty : Built ∅
  | ofCode (text : String) : Built (.ofCode text)
  | ofElement (element : Element) : Built (empty.push element)
  | ofElements (elements : List Element) : Built (.ofElements elements)
  | pushCode {s : Sequence} (built : Built s) (text : String) : Built (s.pushCode text)
  | push {s : Sequence} (built : Built s) (element : Element) : Built (s.push element)
  | append {s : Sequence} (built : Built s) (t : Sequence) : Built (s ++ t)

/-! ## Pushing code -/

theorem pushCode_of_blank {text : String} (blank : normalCode text = "") (s : Sequence) : s.pushCode text = s := by
  rw [pushCode, blank]
  rfl

theorem pushCode_of_code {text : String} (some_code : normalCode text ≠ "") (s : Sequence) :
    s.pushCode text = ⟨appendCode s.content (normalCode text)⟩ := by
  rw [pushCode]
  exact if_neg (by simpa using some_code)

/-- Code is merged with code at the end, and otherwise stands on its own. -/
theorem appendCode_cases (content : List Element) (code : String) :
    (∃ front last, content = front ++ [.code last] ∧
      appendCode content code = front ++ [.code (last ++ "\n" ++ code)]) ∨
    ((∀ last ∈ content.getLast?, last.isCode = false) ∧ appendCode content code = content ++ [.code code]) := by
  unfold appendCode
  split
  next last ends =>
    obtain ⟨front, rfl⟩ := List.getLast?_eq_some_iff.mp ends
    exact .inl ⟨front, last, rfl, by rw [List.dropLast_concat]⟩
  next other =>
    refine .inr ⟨fun last ends => ?_, rfl⟩
    cases last with
    | code text => exact absurd ends (other text)
    | _ => rfl

theorem appendCode_concat (front : List Element) (last code : String) :
    appendCode (front ++ [.code last]) code = front ++ [.code (last ++ "\n" ++ code)] := by
  rw [appendCode, List.getLast?_concat]
  show (front ++ [_]).dropLast ++ _ = _
  rw [List.dropLast_concat]

theorem appendCode_appendCode (content : List Element) (first second : String) :
    appendCode (appendCode content first) second = appendCode content (first ++ "\n" ++ second) := by
  rcases appendCode_cases content first with ⟨front, last, rfl, merged⟩ | ⟨other, alone⟩
  · rw [merged, appendCode_concat, appendCode_concat]
    simp only [String.append_assoc]
  · rcases appendCode_cases content (first ++ "\n" ++ second) with ⟨front, last, rfl, _⟩ | ⟨_, joined⟩
    · exact absurd (other (.code last) (by rw [List.getLast?_concat]; rfl)).symm Bool.false_ne_true
    · rw [alone, appendCode_concat, joined]

/-- Two texts are pushed like one in which a line feed joins them. -/
theorem pushCode_pushCode (s : Sequence) (a b : String) : (s.pushCode a).pushCode b = s.pushCode (a ++ "\n" ++ b) := by
  by_cases left : normalCode a = ""
  · rw [pushCode_of_blank left, pushCode, pushCode, normalCode_joined_of_left left]
  · by_cases right : normalCode b = ""
    · rw [pushCode_of_blank right, pushCode, pushCode, normalCode_joined_of_right right]
    · have joined := normalCode_joined left right
      have some_code : normalCode (a ++ "\n" ++ b) ≠ "" := by
        rw [joined]
        intro empty
        have none := congrArg String.toList empty
        simp at none
      rw [pushCode_of_code left, pushCode_of_code right, pushCode_of_code some_code, joined, appendCode_appendCode]

theorem pushCode_normalCode (s : Sequence) (text : String) : s.pushCode (normalCode text) = s.pushCode text := by
  rw [pushCode, normalCode_normalCode, pushCode]

/-! ## Pushing sequences -/

theorem push_code (s : Sequence) (text : String) : s.push (.code text) = s.pushCode text := rfl

theorem push_of_not_code {element : Element} (other : element.isCode = false) (s : Sequence) :
    s.push element = ⟨s.content ++ [element]⟩ := by
  cases element with
  | code text => exact absurd other.symm Bool.false_ne_true
  | _ => rfl

theorem append_eq (s t : Sequence) : s ++ t = s.pushAll t.content := rfl

theorem append_empty (s : Sequence) : s ++ ∅ = s := rfl

theorem pushAll_concat (s : Sequence) (front : List Element) (element : Element) :
    s.pushAll (front ++ [element]) = (s.pushAll front).push element :=
  List.foldl_concat push s element front

/-- An element is pushed before or after the sequence it is in is put behind another. -/
theorem append_push (s t : Sequence) (element : Element) : s ++ t.push element = (s ++ t).push element := by
  cases kind : element.isCode with
  | false => rw [push_of_not_code kind, append_eq, pushAll_concat, append_eq]
  | true =>
    obtain ⟨text, rfl⟩ := exists_text_of_isCode kind
    rw [push_code, push_code]
    by_cases blank : normalCode text = ""
    · rw [pushCode_of_blank blank, pushCode_of_blank blank]
    · rw [pushCode_of_code blank, append_eq, append_eq]
      rcases appendCode_cases t.content (normalCode text) with ⟨front, last, content, merged⟩ | ⟨_, alone⟩
      · rw [merged, content, pushAll_concat, pushAll_concat, push_code, push_code, ← pushCode_pushCode,
          pushCode_normalCode]
      · rw [alone, pushAll_concat, push_code, pushCode_normalCode]

theorem append_pushAll (s t : Sequence) (elements : List Element) :
    s ++ t.pushAll elements = (s ++ t).pushAll elements := by
  induction elements generalizing t with
  | nil => rfl
  | cons element rest ih =>
    show s ++ (t.push element).pushAll rest = ((s ++ t).push element).pushAll rest
    rw [ih, append_push]

theorem append_assoc (s t u : Sequence) : s ++ t ++ u = s ++ (t ++ u) := (append_pushAll s t u.content).symm

theorem ofCode_append (a b : String) : ofCode a ++ ofCode b = ofCode (a ++ "\n" ++ b) := by
  have pushed (s : Sequence) : s ++ ofCode b = s.pushCode b := append_push s ∅ (.code b)
  rw [pushed, ofCode, pushCode_pushCode, ofCode]

/-! ## Sequences in normal form -/

theorem Normal.empty : (∅ : Sequence).Normal := ⟨List.isChain_nil, nofun⟩

theorem Normal.pushCode (normal : s.Normal) (text : String) : (s.pushCode text).Normal := by
  by_cases blank : normalCode text = ""
  · rw [pushCode_of_blank blank]
    exact normal
  · have own := NormalCode.of_normalCode blank
    rw [pushCode_of_code blank]
    obtain ⟨content⟩ := s
    obtain ⟨merged, codes⟩ := normal
    rcases appendCode_cases content (normalCode text) with ⟨front, last, rfl, joined⟩ | ⟨other, alone⟩
    · rw [joined]
      rw [List.isChain_append] at merged
      refine ⟨List.isChain_append.mpr ⟨merged.1, List.isChain_singleton _, ?_⟩, fun code member => ?_⟩
      · rintro a ends _ ⟨⟩
        exact merged.2.2 a ends (.code last) rfl
      · rcases List.mem_append.mp member with before | here
        · exact codes code (List.mem_append_left _ before)
        · cases List.mem_singleton.mp here
          exact (codes last (by simp)).joined own
    · rw [alone]
      refine ⟨List.isChain_append.mpr ⟨merged, List.isChain_singleton _, ?_⟩, fun code member => ?_⟩
      · rintro a ends _ ⟨⟩ ⟨isCode, _⟩
        exact Bool.false_ne_true ((other a ends).symm.trans isCode)
      · rcases List.mem_append.mp member with before | here
        · exact codes code before
        · cases List.mem_singleton.mp here
          exact own

theorem Normal.push (normal : s.Normal) (element : Element) : (s.push element).Normal := by
  cases kind : element.isCode with
  | true =>
    obtain ⟨text, rfl⟩ := exists_text_of_isCode kind
    exact normal.pushCode text
  | false =>
    rw [push_of_not_code kind]
    refine ⟨List.isChain_append.mpr ⟨normal.merged, List.isChain_singleton _, ?_⟩, fun code member => ?_⟩
    · rintro a _ _ ⟨⟩ ⟨_, isCode⟩
      exact Bool.false_ne_true (kind.symm.trans isCode)
    · rcases List.mem_append.mp member with before | here
      · exact normal.codes code before
      · rw [← List.mem_singleton.mp here] at kind
        exact absurd kind.symm Bool.false_ne_true

theorem Normal.pushAll (normal : s.Normal) (elements : List Element) : (s.pushAll elements).Normal := by
  induction elements generalizing s with
  | nil => exact normal
  | cons element rest ih => exact ih (normal.push element)

theorem Built.normal (built : Built s) : s.Normal := by
  induction built with
  | empty => exact .empty
  | ofCode text => exact Normal.empty.pushCode text
  | ofElement element => exact Normal.empty.push element
  | ofElements elements => exact Normal.empty.pushAll elements
  | pushCode _ text normal => exact normal.pushCode text
  | push _ element normal => exact normal.push element
  | append _ t normal => exact normal.pushAll t.content

/-- A sequence in normal form is rebuilt from its elements. -/
theorem Normal.ofElements_eq (normal : s.Normal) : ofElements s.content = s := by
  obtain ⟨content⟩ := s
  show ofElements content = ⟨content⟩
  induction content using List.reverseRecOn with
  | nil => rfl
  | append_singleton front element ih =>
    obtain ⟨merged, codes⟩ := normal
    obtain ⟨before, _, boundary⟩ := List.isChain_append.mp merged
    have built := ih ⟨before, fun text member => codes text (List.mem_append_left _ member)⟩
    rw [ofElements, pushAll_concat, ← ofElements, built]
    cases kind : element.isCode with
    | false => rw [push_of_not_code kind]
    | true =>
      obtain ⟨text, rfl⟩ := exists_text_of_isCode kind
      have own := codes text (List.mem_append_right _ List.mem_cons_self)
      rw [push_code, pushCode_of_code (by rw [own.normalCode_eq]; exact own.nonempty), own.normalCode_eq]
      rcases appendCode_cases front text with ⟨earlier, last, rfl, _⟩ | ⟨_, alone⟩
      · exact absurd ⟨rfl, rfl⟩ (boundary (.code last) (by rw [List.getLast?_concat]; rfl) (.code text) rfl)
      · rw [alone]

theorem built_iff_normal : Built s ↔ s.Normal := by
  refine ⟨Built.normal, fun normal => ?_⟩
  rw [← normal.ofElements_eq]
  exact .ofElements s.content

theorem ofElements_eq_iff : ofElements s.content = s ↔ s.Normal := by
  refine ⟨fun same => ?_, Normal.ofElements_eq⟩
  rw [← same]
  exact Normal.empty.pushAll s.content

/-- Sequences are a monoid of normal forms: the sequences that can be built are those in normal form, `++` is associative with
    the empty sequence as unit, a sequence in normal form is rebuilt from its elements, and putting code behind code is
    joining the texts with a line feed. -/
theorem normal_forms_monoid :
    (∀ s, Built s ↔ s.Normal) ∧
    (∀ s t u : Sequence, s ++ t ++ u = s ++ (t ++ u)) ∧
    (∀ s : Sequence, s ++ ∅ = s) ∧
    (∀ s : Sequence, ∅ ++ s = s ↔ s.Normal) ∧
    (∀ s, ofElements s.content = s ↔ s.Normal) ∧
    ∀ a b, ofCode a ++ ofCode b = ofCode (a ++ "\n" ++ b) :=
  ⟨fun _ => built_iff_normal, append_assoc, append_empty, fun _ => ofElements_eq_iff, fun _ => ofElements_eq_iff,
    ofCode_append⟩

end Sequence
end DspPatch
