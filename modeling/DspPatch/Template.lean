import DspPatch.Error
import DspPatch.Sequence.Basic
import DspPatch.Text.Name

/-!
Code templates: text with placeholders `${scope}` and `${scope.key}`. Two dollar signs stand for one, and a dollar sign
before anything but a brace or a dollar sign stands for itself. A dollar sign and a brace that open no placeholder are
an error at their byte offset.
-/
namespace DspPatch

/-- A run of text, or a reference to a key of a scope. -/
inductive Piece where
  | text (content : String)
  | reference (scope : String) (key : Option String)
deriving DecidableEq, Repr

/-- A parsed template: no text is empty and no two texts are adjacent. -/
structure Template where
  pieces : List Piece
deriving DecidableEq, Repr

namespace Template

/-- What follows the brace that opens a placeholder: a scope that does not begin with a digit, a key behind a point if
    there is a point, and the closing brace. Yields the reference and what follows it. -/
def placeholder? (cs : List Char) : Option (Piece × List Char) :=
  let scope := cs.takeWhile Text.isNameChar
  if scope.head?.any (fun c => !c.isDigit) then
    match cs.dropWhile Text.isNameChar with
    | '\x7d' :: after => some (.reference (String.ofList scope) none, after)
    | '.' :: rest =>
      let key := rest.takeWhile Text.isNameChar
      match rest.dropWhile Text.isNameChar with
      | '\x7d' :: after =>
        if key.isEmpty then none else some (.reference (String.ofList scope) (some (String.ofList key)), after)
      | _ => none
    | _ => none
  else none

theorem length_dropWhile_le {α : Type} (p : α → Bool) (l : List α) : (l.dropWhile p).length ≤ l.length := by
  induction l with
  | nil => simp
  | cons a l ih => by_cases h : p a <;> simp [h]; omega

/-- A placeholder takes at least its closing brace. -/
theorem length_of_placeholder? {cs after : List Char} {piece : Piece} (found : placeholder? cs = some (piece, after)) :
    after.length < cs.length := by
  have outer := length_dropWhile_le Text.isNameChar cs
  unfold placeholder? at found
  dsimp only at found
  split at found
  · split at found
    · next rest shape =>
      have same : rest = after := by simp_all
      rw [shape, same, List.length_cons] at outer
      omega
    · next rest shape =>
      have inner := length_dropWhile_le Text.isNameChar rest
      rw [shape, List.length_cons] at outer
      split at found
      · next last closing =>
        have same : last = after := by split at found <;> simp_all
        rw [closing, same, List.length_cons] at inner
        omega
      · simp at found
    · simp at found
  · simp at found

/-- One character of text before the given pieces. -/
def consChar (c : Char) : List Piece → List Piece
  | .text content :: rest => .text (String.ofList [c] ++ content) :: rest
  | rest => .text (String.ofList [c]) :: rest

/-- The pieces of a template whose first byte stands at `offset`, or the offset of the first dollar
    sign before a brace that opens no placeholder. -/
def scan (offset : Nat) (cs : List Char) : Except Nat (List Piece) :=
  match cs with
  | [] => .ok []
  | '$' :: '$' :: rest => (scan (offset + 2) rest).map (consChar '$')
  | '$' :: '\x7b' :: rest =>
    match found : placeholder? rest with
    | none => .error offset
    | some (piece, after) => (scan (offset + 2 + (rest.length - after.length)) after).map (piece :: ·)
  | c :: rest => (scan (offset + c.utf8Size) rest).map (consChar c)
termination_by cs.length
decreasing_by
  all_goals simp only [List.length_cons]
  · omega
  · have := length_of_placeholder? found; omega
  · omega

/-- Parse a template; `origin` says in errors where the text comes from. -/
def parse (origin source : String) : Except CompileError Template :=
  match scan 0 source.toList with
  | .ok pieces => .ok ⟨pieces⟩
  | .error offset => .error (.template origin (.placeholder offset))

/-- The text of a template in which every reference is looked up. -/
def render (lookup : String → Option String → Except CompileError String) (t : Template) :
    Except CompileError String := do
  let parts ← t.pieces.mapM (fun
    | .text content => .ok content
    | .reference scope key => lookup scope key)
  return String.join parts

/-- The code a template yields. -/
def renderCode (lookup : String → Option String → Except CompileError String) (t : Template) :
    Except CompileError Sequence :=
  (t.render lookup).map Sequence.ofCode

end Template
end DspPatch
