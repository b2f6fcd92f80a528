import DspPatch.Proofs.Names
import DspPatch.Proofs.Outcome
import DspPatch.Template
import Mathlib.Data.List.Chain

/-!
Templates and their source text. A list of pieces in normal form is written by doubling every dollar sign of its texts and
bracing its references, and parsing reads it back. Every parse yields a normal form. Whether a text is a template at all
depends on its units alone: a scan takes doubled dollar signs, placeholders and single characters from the left, and
parsing fails exactly if the scan comes to a dollar sign and a brace that open no placeholder
(`scan_eq_error_iff`).
-/
namespace DspPatch

namespace Piece

/-- What follows the opening brace of a reference. -/
def braced (scope : String) (key : Option String) : List Char :=
  scope.toList ++ key.elim [] (fun own => '.' :: own.toList) ++ ['\x7d']

/-- A character of text in the source of a template. -/
def double (c : Char) : List Char := if c = '$' then ['$', '$'] else [c]

/-- The text of a piece in the source of a template. -/
def spell : Piece → List Char
  | .text content => content.toList.flatMap double
  | .reference scope key => '$' :: '\x7b' :: braced scope key

def IsText : Piece → Prop
  | .text _ => True
  | .reference _ _ => False

/-- Texts are not empty. Scopes and keys are names, and scopes do not begin with a digit. -/
def WellFormed : Piece → Prop
  | .text content => content ≠ ""
  | .reference scope key => Text.isNamePart scope = true ∧ scope.toList.head?.any Char.isDigit = false ∧
      ∀ own ∈ key, Text.isNamePart own = true

instance : DecidablePred IsText
  | .text _ => isTrue trivial
  | .reference _ _ => isFalse id

instance : DecidablePred WellFormed
  | .text content => inferInstanceAs (Decidable (content ≠ ""))
  | .reference _ _ => inferInstanceAs (Decidable (_ ∧ _ ∧ ∀ own ∈ _, _))

end Piece

namespace Template

/-- All pieces are well-formed, and no text follows a text. -/
structure Normal (pieces : List Piece) : Prop where
  each : ∀ p ∈ pieces, p.WellFormed
  apart : pieces.IsChain (fun a b => ¬(a.IsText ∧ b.IsText))

/-- The source text of a template. -/
def source (t : Template) : String := String.ofList (t.pieces.flatMap Piece.spell)

/-- A placeholder as it is written. -/
def IsPlaceholder (cs : List Char) : Prop :=
  ∃ scope key, (Piece.reference scope key).WellFormed ∧ cs = (Piece.reference scope key).spell

/-- What a scan takes at once from a text that goes on with `rest`. -/
inductive Lexeme : List Char → List Char → Prop where
  | pair (rest : List Char) : Lexeme ['$', '$'] rest
  | placeholder {cs : List Char} (written : IsPlaceholder cs) (rest : List Char) : Lexeme cs rest
  | plain {c : Char} (other : c ≠ '$') (rest : List Char) : Lexeme [c] rest
  | lone {rest : List Char} (unpaired : rest.head? ≠ some '$') (closed : rest.head? ≠ some '\x7b') : Lexeme ['$'] rest

/-- A scan of `done ++ rest` takes units from the left and comes to `rest`. -/
inductive Reaches : List Char → List Char → Prop where
  | start (rest : List Char) : Reaches [] rest
  | step {unit done rest : List Char} (first : Lexeme unit (done ++ rest)) (later : Reaches done rest) :
      Reaches (unit ++ done) rest

/-- The text begins with a dollar sign and a brace, but not with a placeholder. -/
def Malformed (cs : List Char) : Prop :=
  (∃ rest, cs = '$' :: '\x7b' :: rest) ∧ ∀ written rest, IsPlaceholder written → cs ≠ written ++ rest

section Names
variable {name rest : List Char} {c : Char}

theorem takeWhile_name (letters : ∀ c ∈ name, Text.isNameChar c = true) (stops : Text.isNameChar c = false) :
    (name ++ c :: rest).takeWhile Text.isNameChar = name := by
  rw [List.takeWhile_append_of_pos letters, List.takeWhile_cons, stops]
  simp

theorem dropWhile_name (letters : ∀ c ∈ name, Text.isNameChar c = true) (stops : Text.isNameChar c = false) :
    (name ++ c :: rest).dropWhile Text.isNameChar = c :: rest := by
  rw [List.dropWhile_append_of_pos letters, List.dropWhile_cons, stops]
  simp

theorem isNameChar_of_mem_takeWhile {cs : List Char} (member : c ∈ cs.takeWhile Text.isNameChar) :
    Text.isNameChar c = true :=
  List.all_eq_true.mp List.all_takeWhile c member

end Names

/-- What is written as a placeholder is found as one. -/
theorem placeholder?_braced {scope : String} {key : Option String} (formed : (Piece.reference scope key).WellFormed)
    (rest : List Char) : placeholder? (Piece.braced scope key ++ rest) = some (.reference scope key, rest) := by
  obtain ⟨named, letter, keyed⟩ := formed
  obtain ⟨nonempty, letters⟩ := Text.isNamePart_iff.mp named
  have first : scope.toList.head?.any (fun c => !c.isDigit) = true := by
    cases chars : scope.toList with
    | nil => exact absurd chars nonempty
    | cons c _ => simpa [chars] using letter
  have brace : Text.isNameChar '\x7d' = false := by decide
  have point : Text.isNameChar '.' = false := by decide
  cases key with
  | none =>
    have shape : Piece.braced scope none ++ rest = scope.toList ++ '\x7d' :: rest := by simp [Piece.braced]
    rw [shape]
    simp only [placeholder?, takeWhile_name letters brace, dropWhile_name letters brace, first, if_true,
      String.ofList_toList]
  | some own =>
    obtain ⟨ownNonempty, ownLetters⟩ := Text.isNamePart_iff.mp (keyed own rfl)
    have some : own.toList.isEmpty = false := by simpa using ownNonempty
    have shape : Piece.braced scope (.some own) ++ rest = scope.toList ++ '.' :: (own.toList ++ '\x7d' :: rest) := by
      simp [Piece.braced]
    rw [shape]
    simp only [placeholder?, takeWhile_name letters point, dropWhile_name letters point, first, if_true,
      takeWhile_name ownLetters brace, dropWhile_name ownLetters brace, some, String.ofList_toList]
    simp

/-- What is found as a placeholder is written as one. -/
theorem braced_of_placeholder? {cs after : List Char} {piece : Piece} (found : placeholder? cs = some (piece, after)) :
    ∃ scope key, piece = .reference scope key ∧ piece.WellFormed ∧ cs = Piece.braced scope key ++ after := by
  have split : cs.takeWhile Text.isNameChar ++ cs.dropWhile Text.isNameChar = cs := List.takeWhile_append_dropWhile
  have letters : ∀ c ∈ cs.takeWhile Text.isNameChar, Text.isNameChar c = true := fun _ => isNameChar_of_mem_takeWhile
  unfold placeholder? at found
  dsimp only at found
  generalize cs.takeWhile Text.isNameChar = scope at *
  split at found
  next first =>
    have named : Text.isNamePart (String.ofList scope) = true ∧ scope.head?.any Char.isDigit = false := by
      cases scope with
      | nil => cases first
      | cons c _ => exact ⟨Text.isNamePart_iff.mpr (by simpa using letters), by simpa using first⟩
    split at found
    next rest shape =>
      cases found
      refine ⟨_, none, rfl, ⟨named.1, by simpa using named.2, fun _ => nofun⟩, ?_⟩
      rw [← split, shape]
      simp [Piece.braced]
    next rest shape =>
      have inner : rest.takeWhile Text.isNameChar ++ rest.dropWhile Text.isNameChar = rest :=
        List.takeWhile_append_dropWhile
      have keyLetters : ∀ c ∈ rest.takeWhile Text.isNameChar, Text.isNameChar c = true :=
        fun _ => isNameChar_of_mem_takeWhile
      generalize rest.takeWhile Text.isNameChar = key at *
      split at found
      next last closing =>
        split at found
        next => cases found
        next some =>
          cases found
          refine ⟨_, _, rfl, ⟨named.1, by simpa using named.2, fun own isOwn => ?_⟩, ?_⟩
          · cases isOwn
            exact Text.isNamePart_iff.mpr ⟨by simpa using some, by simpa using keyLetters⟩
          · rw [← split, shape, ← inner, closing]
            simp [Piece.braced]
      next => cases found
    next => cases found
  next => cases found

/-- Whether a text behind a dollar sign and a brace goes on as a placeholder. -/
theorem placeholder?_eq_none_iff {rest : List Char} :
    placeholder? rest = none ↔ Malformed ('$' :: '\x7b' :: rest) := by
  constructor
  · rintro missing
    refine ⟨⟨rest, rfl⟩, ?_⟩
    rintro _ after ⟨scope, key, formed, rfl⟩ same
    have body : rest = Piece.braced scope key ++ after := by simpa [Piece.spell] using same
    rw [body, placeholder?_braced formed] at missing
    cases missing
  · rintro ⟨_, none⟩
    cases found : placeholder? rest with
    | none => rfl
    | some result =>
      obtain ⟨piece, after⟩ := result
      obtain ⟨scope, key, rfl, formed, rfl⟩ := braced_of_placeholder? found
      exact absurd rfl (none _ after ⟨scope, key, formed, rfl⟩)

/-- The number of bytes that characters take. -/
def bytes (cs : List Char) : Nat := (String.ofList cs).utf8ByteSize

@[simp] theorem bytes_nil : bytes [] = 0 := rfl

@[simp] theorem bytes_append (cs ds : List Char) : bytes (cs ++ ds) = bytes cs + bytes ds := by simp [bytes]

@[simp] theorem bytes_cons (c : Char) (cs : List Char) : bytes (c :: cs) = c.utf8Size + bytes cs := by
  simp [bytes, String.ofList_cons]

/-- Characters of names take one byte each. -/
theorem utf8Size_of_isNameChar {c : Char} (letter : Text.isNameChar c = true) : c.utf8Size = 1 := by
  have alphanumeric : c.isAlphanum = true → c.val ≤ 'z'.val := by
    intro isAlphanum
    change ((decide (c.val ≥ 'A'.val ∧ c.val ≤ 'Z'.val) || (decide (c.val ≥ 'a'.val) && decide (c.val ≤ 'z'.val))) ||
      (decide (c.val ≥ '0'.val) && decide (c.val ≤ '9'.val))) = true at isAlphanum
    simp only [Bool.or_eq_true, Bool.and_eq_true, decide_eq_true_eq] at isAlphanum
    rcases isAlphanum with (upper | lower) | digit
    · exact UInt32.le_trans upper.2 (by decide)
    · exact lower.2
    · exact UInt32.le_trans digit.2 (by decide)
  rw [Char.utf8Size_eq_one_iff]
  rcases Bool.or_eq_true_iff.mp letter with isAlphanum | underscore
  · exact UInt32.le_trans (alphanumeric isAlphanum) (by decide)
  · rw [beq_iff_eq.mp underscore]
    decide

theorem bytes_eq_length {cs : List Char} (small : ∀ c ∈ cs, c.utf8Size = 1) : bytes cs = cs.length := by
  induction cs with
  | nil => rfl
  | cons c rest ih =>
    rw [bytes_cons, small c List.mem_cons_self, ih (fun c member => small c (List.mem_cons_of_mem _ member)),
      List.length_cons]
    omega

theorem bytes_braced {scope : String} {key : Option String} (formed : (Piece.reference scope key).WellFormed) :
    bytes (Piece.braced scope key) = (Piece.braced scope key).length := by
  obtain ⟨named, _, keyed⟩ := formed
  have small {name : String} (isName : Text.isNamePart name = true) : ∀ c ∈ name.toList, c.utf8Size = 1 :=
    fun c member => utf8Size_of_isNameChar ((Text.isNamePart_iff.mp isName).2 c member)
  refine bytes_eq_length (fun c member => ?_)
  simp only [Piece.braced, List.mem_append, List.mem_singleton] at member
  rcases member with (inScope | inKey) | rfl
  · exact small named c inScope
  · cases key with
    | none => cases inKey
    | some own =>
      rcases List.mem_cons.mp inKey with rfl | inOwn
      · decide
      · exact small (keyed own rfl) c inOwn
  · decide

section Scan
variable {offset : Nat} {rest : List Char}

theorem scan_pair : scan offset ('$' :: '$' :: rest) = (scan (offset + 2) rest).map (consChar '$') := by rw [scan]

theorem scan_malformed (malformed : Malformed ('$' :: '\x7b' :: rest)) :
    scan offset ('$' :: '\x7b' :: rest) = .error offset := by
  have missing := placeholder?_eq_none_iff.mpr malformed
  rw [scan]
  split
  next => rfl
  next found => cases missing.symm.trans found

theorem scan_reference {scope : String} {key : Option String} (formed : (Piece.reference scope key).WellFormed) :
    scan offset ((Piece.reference scope key).spell ++ rest) =
      (scan (offset + bytes (Piece.reference scope key).spell) rest).map (.reference scope key :: ·) := by
  have found := placeholder?_braced formed rest
  show scan offset ('$' :: '\x7b' :: (Piece.braced scope key ++ rest)) = _
  rw [scan]
  split
  next missing => cases missing.symm.trans found
  next piece after isFound =>
    cases found.symm.trans isFound
    have place : offset + 2 + ((Piece.braced scope key ++ rest).length - rest.length) =
        offset + bytes (Piece.reference scope key).spell := by
      have two : '$'.utf8Size = 1 ∧ '\x7b'.utf8Size = 1 := by decide
      rw [Piece.spell, bytes_cons, bytes_cons, bytes_braced formed, List.length_append, two.1, two.2]
      omega
    rw [place]

theorem scan_single {c : Char} (pairless : c = '$' → rest.head? ≠ some '$' ∧ rest.head? ≠ some '\x7b') :
    scan offset (c :: rest) = (scan (offset + c.utf8Size) rest).map (consChar c) := by
  rw [scan]
  · rintro tail rfl rfl
    exact (pairless rfl).1 rfl
  · rintro tail rfl rfl
    exact (pairless rfl).2 rfl

end Scan

section Normal
variable {pieces : List Piece}

theorem Normal.reference {scope : String} {key : Option String} (formed : (Piece.reference scope key).WellFormed)
    (normal : Normal pieces) : Normal (.reference scope key :: pieces) := by
  refine ⟨List.forall_mem_cons.mpr ⟨formed, normal.each⟩, ?_⟩
  cases pieces with
  | nil => exact .singleton _
  | cons p ps => exact List.isChain_cons_cons.mpr ⟨fun both => both.1, normal.apart⟩

/-- Text that comes before text is joined with it. -/
theorem Normal.consChar (c : Char) (normal : Normal pieces) : Normal (consChar c pieces) := by
  cases pieces with
  | nil => exact ⟨by simp [Template.consChar, Piece.WellFormed], .singleton _⟩
  | cons p ps =>
    obtain ⟨_, later⟩ := List.forall_mem_cons.mp normal.each
    cases p with
    | text content =>
      refine ⟨List.forall_mem_cons.mpr ⟨by simp [Piece.WellFormed], later⟩, ?_⟩
      cases ps with
      | nil => exact .singleton _
      | cons q qs => exact List.isChain_cons_cons.mpr (List.isChain_cons_cons.mp normal.apart)
    | reference scope key =>
      refine ⟨List.forall_mem_cons.mpr ⟨by simp [Piece.WellFormed], normal.each⟩, ?_⟩
      exact List.isChain_cons_cons.mpr ⟨fun both => both.2, normal.apart⟩

end Normal

/-- A scan goes on behind a unit as if the text began there, and puts something before what it finds. -/
theorem scan_lexeme {unit rest : List Char} (first : Lexeme unit rest) :
    ∃ f, (∀ pieces, Normal pieces → Normal (f pieces)) ∧
      ∀ offset, scan offset (unit ++ rest) = (scan (offset + bytes unit) rest).map f := by
  have size : ∀ c, bytes [c] = c.utf8Size := fun c => by simp
  cases first with
  | pair => exact ⟨_, fun _ => .consChar '$', fun _ => scan_pair⟩
  | placeholder written =>
    obtain ⟨scope, key, formed, rfl⟩ := written
    exact ⟨_, fun _ => .reference formed, fun _ => scan_reference formed⟩
  | @plain c other =>
    rw [size]
    exact ⟨_, fun _ => .consChar c, fun _ => scan_single (fun same => absurd same other)⟩
  | lone unpaired closed =>
    rw [size]
    exact ⟨_, fun _ => .consChar '$', fun _ => scan_single (fun _ => ⟨unpaired, closed⟩)⟩

/-- Every text is empty, malformed, or begins with a unit. -/
theorem lexeme_induction {motive : List Char → Prop} (nil : motive []) (malformed : ∀ cs, Malformed cs → motive cs)
    (step : ∀ unit rest, Lexeme unit rest → motive rest → motive (unit ++ rest)) (cs : List Char) : motive cs := by
  induction size : cs.length using Nat.strong_induction_on generalizing cs with
  | _ n ih =>
  subst size
  cases cs with
  | nil => exact nil
  | cons c rest =>
    have shorter : motive rest := ih _ (by simp) rest rfl
    by_cases dollar : c = '$'
    · subst dollar
      by_cases pair : rest.head? = some '$'
      · obtain ⟨after, rfl⟩ := List.head?_eq_some_iff.mp pair
        exact step ['$', '$'] after (.pair after) (ih _ (by simp only [List.length_cons]; omega) after rfl)
      by_cases brace : rest.head? = some '\x7b'
      · obtain ⟨after, rfl⟩ := List.head?_eq_some_iff.mp brace
        cases found : placeholder? after with
        | none => exact malformed _ (placeholder?_eq_none_iff.mp found)
        | some result =>
          obtain ⟨piece, last⟩ := result
          have less := length_of_placeholder? found
          obtain ⟨scope, key, rfl, formed, rfl⟩ := braced_of_placeholder? found
          refine step (Piece.reference scope key).spell last (.placeholder ⟨scope, key, formed, rfl⟩ last) (ih _ ?_ last rfl)
          simp only [List.length_cons]
          omega
      · exact step ['$'] rest (.lone pair brace) shorter
    · exact step [c] rest (.plain dollar rest) shorter

/-- The scan of a text fails at a byte offset, if its first byte stands at `offset`. -/
def FailsAt (offset : Nat) (cs : List Char) (place : Nat) : Prop :=
  ∃ done rest, cs = done ++ rest ∧ Reaches done rest ∧ Malformed rest ∧ place = offset + bytes done

theorem FailsAt.step {offset place : Nat} {unit rest : List Char} (first : Lexeme unit rest)
    (later : FailsAt (offset + bytes unit) rest place) : FailsAt offset (unit ++ rest) place := by
  obtain ⟨done, last, rfl, reached, malformed, rfl⟩ := later
  refine ⟨unit ++ done, last, (List.append_assoc ..).symm, .step first reached, malformed, ?_⟩
  rw [bytes_append, Nat.add_assoc]

theorem scan_yields (cs : List Char) (offset : Nat) : Yields (scan offset cs) Normal (FailsAt offset cs) := by
  induction cs using lexeme_induction generalizing offset with
  | nil =>
    rw [scan]
    exact ⟨List.forall_mem_nil _, .nil⟩
  | malformed cs malformed =>
    obtain ⟨rest, rfl⟩ := malformed.1
    rw [scan_malformed malformed]
    exact ⟨[], _, rfl, .start _, malformed, rfl⟩
  | step unit rest first ih =>
    obtain ⟨f, keeps, goesOn⟩ := scan_lexeme first
    rw [goesOn]
    exact Yields.map ((ih _).mono (fun _ normal => normal) (fun _ fails => fails.step first)) keeps

theorem scan_eq_error_iff {offset place : Nat} {cs : List Char} :
    scan offset cs = .error place ↔ FailsAt offset cs place := by
  refine ⟨(scan_yields cs offset).of_eq_error, ?_⟩
  rintro ⟨done, rest, rfl, reached, malformed, rfl⟩
  induction reached generalizing offset with
  | start rest =>
    obtain ⟨after, rfl⟩ := malformed.1
    exact scan_malformed malformed
  | @step unit done rest first _ ih =>
    obtain ⟨f, _, goesOn⟩ := scan_lexeme first
    rw [List.append_assoc, goesOn, ih malformed, bytes_append, Nat.add_assoc]
    rfl

theorem scan_double (c : Char) (rest : List Char) (offset : Nat) :
    scan offset (Piece.double c ++ rest) = (scan (offset + bytes (Piece.double c)) rest).map (consChar c) := by
  by_cases dollar : c = '$'
  · subst dollar
    exact scan_pair
  · have size : bytes [c] = c.utf8Size := by simp
    rw [Piece.double, if_neg dollar, size]
    exact scan_single (fun same => absurd same dollar)

theorem scan_text (cs rest : List Char) (offset : Nat) :
    scan offset (cs.flatMap Piece.double ++ rest) =
      (scan (offset + bytes (cs.flatMap Piece.double)) rest).map (cs.foldr consChar) := by
  induction cs generalizing offset with
  | nil =>
    show scan offset rest = (scan offset rest).map id
    cases scan offset rest <;> rfl
  | cons c cs ih =>
    rw [List.flatMap_cons, List.append_assoc, scan_double, ih, bytes_append, Nat.add_assoc]
    cases scan _ rest <;> rfl

/-- Characters are collected to one text where no text follows. -/
theorem foldr_consChar {pieces : List Piece} (apart : ∀ p ∈ pieces.head?, ¬p.IsText) (c : Char) (cs : List Char) :
    (c :: cs).foldr consChar pieces = .text (String.ofList (c :: cs)) :: pieces := by
  induction cs generalizing c with
  | nil =>
    cases pieces with
    | nil => rfl
    | cons p ps =>
      cases p with
      | text content => exact absurd trivial (apart _ rfl)
      | reference => rfl
  | cons d ds ih =>
    rw [List.foldr_cons, ih d, consChar, ← String.ofList_append, List.singleton_append]

/-- What is written is read back. -/
theorem scan_flatMap_spell {pieces : List Piece} (normal : Normal pieces) (offset : Nat) :
    scan offset (pieces.flatMap Piece.spell) = .ok pieces := by
  induction pieces generalizing offset with
  | nil => rw [List.flatMap_nil, scan]
  | cons p ps ih =>
    obtain ⟨formed, later⟩ := List.forall_mem_cons.mp normal.each
    have rest := ih ⟨later, normal.apart.tail⟩
    rw [List.flatMap_cons]
    cases p with
    | reference scope key =>
      rw [scan_reference formed, rest]
      rfl
    | text content =>
      have apart : ∀ p ∈ ps.head?, ¬p.IsText := by
        intro p isHead isText
        obtain ⟨tail, rfl⟩ := List.head?_eq_some_iff.mp isHead
        exact (List.isChain_cons_cons.mp normal.apart).1 ⟨trivial, isText⟩
      rw [Piece.spell, scan_text, rest]
      cases chars : content.toList with
      | nil => exact absurd (String.toList_eq_nil_iff.mp chars) formed
      | cons c cs =>
        show Except.ok ((c :: cs).foldr consChar ps) = _
        rw [foldr_consChar apart, ← chars, String.ofList_toList]

/-- Parsing reads back the source of every template in normal form and yields no other templates. It fails exactly if a
    scan from the left comes to a dollar sign and a brace that open no placeholder, and tells the byte offset of the first
    ones. -/
theorem parse_inverts_source (origin : String) :
    (∀ t : Template, Normal t.pieces → parse origin t.source = .ok t) ∧
      (∀ source t, parse origin source = .ok t → Normal t.pieces) ∧
      ∀ source e, parse origin source = .error e ↔ ∃ done rest, source.toList = done ++ rest ∧ Reaches done rest ∧
        Malformed rest ∧ e = .template origin (.placeholder (String.ofList done).utf8ByteSize) := by
  refine ⟨fun t normal => ?_, fun source t parsed => ?_, fun source e => ?_⟩
  · rw [parse, source, String.toList_ofList, scan_flatMap_spell normal]
  · unfold parse at parsed
    split at parsed
    next pieces scanned =>
      cases parsed
      exact (scan_yields _ 0).of_eq_ok scanned
    next => cases parsed
  · unfold parse
    constructor
    · split
      next => rintro ⟨⟩
      next offset failed =>
        rintro ⟨⟩
        obtain ⟨done, rest, same, reached, malformed, rfl⟩ := scan_eq_error_iff.mp failed
        exact ⟨done, rest, same, reached, malformed, by rw [Nat.zero_add, bytes]⟩
    · rintro ⟨done, rest, same, reached, malformed, rfl⟩
      rw [scan_eq_error_iff.mpr ⟨done, rest, same, reached, malformed, rfl⟩, Nat.zero_add, bytes]

/-- A dollar sign in front of a placeholder is doubled; behind a doubled one and a letter of two bytes, what opens no
    placeholder stands at byte four. -/
theorem parse_inverts_source_dollars :
    parse "osc" "$$$\x7bosc.freq\x7d$$5" = .ok ⟨[.text "$", .reference "osc" (some "freq"), .text "$5"]⟩ ∧
      parse "osc" "é$$$\x7b5\x7d" = .error (.template "osc" (.placeholder 4)) := by
  obtain ⟨inverts, _, fails⟩ := parse_inverts_source "osc"
  constructor
  · exact inverts ⟨[.text "$", .reference "osc" (some "freq"), .text "$5"]⟩ ⟨by decide, by decide⟩
  · refine (fails _ _).mpr ⟨['é', '$', '$'], "$\x7b5\x7d".toList, by decide, ?_, ?_, by decide⟩
    · exact .step (.plain (by decide) _) (.step (.pair _) (.start _))
    · exact placeholder?_eq_none_iff.mp (by decide)

end Template
end DspPatch
