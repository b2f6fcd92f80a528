import DspPatch.Json.Value
import Mathlib.Data.List.Infix

/-!
How strings and numbers are spelled. What is written for a string is read back, whatever follows the closing quote
(`readString_escaped`). A number is read as far as its spelling goes: reading it does not depend on what follows, as long
as that is the end of the text or a mark between values (`readLiteral_append`).
-/
namespace DspPatch.Json

section Strings
variable {c : Char} (cs : List Char)

theorem readUnits_letter {escape : Char} (other : escape ≠ 'u') (isChar : escapedChar? escape = some c) :
    readUnits ('\\' :: escape :: cs) = (readUnits cs).map (fun found => (.char c :: found.1, found.2)) := by
  rw [readUnits, isChar]
  · cases readUnits cs <;> rfl
  · exact fun _ _ _ _ _ same => absurd same other

theorem readUnits_number {i j k l : Char} {n : Nat} (isUnit : codeUnit? i j k l = some n) :
    readUnits ('\\' :: 'u' :: i :: j :: k :: l :: cs) =
      (readUnits cs).map (fun found => (.unit n :: found.1, found.2)) := by
  rw [readUnits, isUnit]
  cases readUnits cs <;> rfl

theorem readUnits_plain (unquoted : c ≠ '"') (unescaped : c ≠ '\\') (printed : ¬c.toNat < 0x20) :
    readUnits (c :: cs) = (readUnits cs).map (fun found => (.char c :: found.1, found.2)) := by
  rw [readUnits, if_neg printed]
  · cases readUnits cs <;> rfl
  · exact unquoted
  · exact fun _ _ _ _ _ same => absurd same unescaped
  · exact fun _ _ same => absurd same unescaped

end Strings

/-- A code unit below all surrogates denotes its character. -/
theorem unitChars_small {n : Nat} (small : n < 0x20) (units : List StringUnit) :
    unitChars (.unit n :: units) = (unitChars units).map (Char.ofNat n :: ·) := by
  have low : decide (0xD800 ≤ n) = false := decide_eq_false (by omega)
  have below : decide (0xDC00 ≤ n) = false := decide_eq_false (by omega)
  cases units with
  | nil => simp only [unitChars, low, Bool.false_and, Bool.false_eq_true, if_false]
  | cons first rest =>
    cases first with
    | char c => simp only [unitChars, low, Bool.false_and, Bool.false_eq_true, if_false]
    | unit m => rw [unitChars, low, below]; rfl

/-- The spelling of a character is read as one unit, which denotes the character. -/
theorem readUnits_escapeChar (c : Char) : ∃ unit,
    (∀ cs, readUnits (escapeChar c ++ cs) = (readUnits cs).map (fun found => (unit :: found.1, found.2))) ∧
      ∀ units, unitChars (unit :: units) = (unitChars units).map (c :: ·) := by
  have letter : ∀ escape, escape ≠ 'u' → escapedChar? escape = some c → ∃ unit,
      (∀ cs, readUnits (['\\', escape] ++ cs) = (readUnits cs).map (fun found => (unit :: found.1, found.2))) ∧
        ∀ units, unitChars (unit :: units) = (unitChars units).map (c :: ·) :=
    fun escape other isChar => ⟨.char c, fun cs => readUnits_letter cs other isChar, fun _ => rfl⟩
  unfold escapeChar
  split
  next same => exact letter '"' (by decide) (by rw [beq_iff_eq.mp same]; rfl)
  next unquoted =>
  split
  next same => exact letter '\\' (by decide) (by rw [beq_iff_eq.mp same]; rfl)
  next unescaped =>
  split
  next same => exact letter 'b' (by decide) (by rw [beq_iff_eq.mp same]; rfl)
  next =>
  split
  next same => exact letter 'f' (by decide) (by rw [beq_iff_eq.mp same]; rfl)
  next =>
  split
  next same => exact letter 'n' (by decide) (by rw [beq_iff_eq.mp same]; rfl)
  next =>
  split
  next same => exact letter 'r' (by decide) (by rw [beq_iff_eq.mp same]; rfl)
  next =>
  split
  next same => exact letter 't' (by decide) (by rw [beq_iff_eq.mp same]; rfl)
  next =>
  split
  next small =>
    have isUnit : ∀ n < 0x20, codeUnit? '0' '0' (hexDigit (n / 16)) (hexDigit (n % 16)) = some n := by decide
    refine ⟨.unit c.toNat, fun cs => readUnits_number cs (isUnit _ small), fun units => ?_⟩
    rw [unitChars_small small, Char.ofNat_toNat]
  next printed =>
    refine ⟨.char c, fun cs => readUnits_plain cs ?_ ?_ printed, fun _ => rfl⟩
    · exact fun same => unquoted (beq_iff_eq.mpr same)
    · exact fun same => unescaped (beq_iff_eq.mpr same)

theorem readString_escaped (cs rest : List Char) :
    readString (cs.flatMap escapeChar ++ '"' :: rest) = some (some (String.ofList cs), rest) := by
  have units : ∃ units, readUnits (cs.flatMap escapeChar ++ '"' :: rest) = some (units, rest) ∧
      unitChars units = some cs := by
    induction cs with
    | nil => exact ⟨[], by simp [readUnits], rfl⟩
    | cons c cs ih =>
      obtain ⟨units, read, denotes⟩ := ih
      obtain ⟨unit, reads, denotesChar⟩ := readUnits_escapeChar c
      refine ⟨unit :: units, ?_, ?_⟩
      · rw [List.flatMap_cons, List.append_assoc, reads, read]
        rfl
      · rw [denotesChar, denotes]
        rfl
  obtain ⟨units, read, denotes⟩ := units
  rw [readString, read]
  show some ((unitChars units).map String.ofList, rest) = _
  rw [denotes]
  rfl

/-- What may follow a value: the end of the text, or a mark between values. -/
def Stops (rest : List Char) : Prop := ∀ c ∈ rest.head?, c = ',' ∨ c = ']' ∨ c = '\x7d'

section Numbers
variable {cs after rest : List Char}

theorem Stops.ne (stops : Stops rest) {c : Char} (other : c ≠ ',' ∧ c ≠ ']' ∧ c ≠ '\x7d') (tail : List Char) :
    rest ≠ c :: tail := by
  rintro rfl
  rcases stops c rfl with same | same | same
  · exact other.1 same
  · exact other.2.1 same
  · exact other.2.2 same

/-- A character that marks nothing belongs to the spelling. -/
theorem Stops.cons_of_append (stops : Stops rest) {c : Char} (other : c ≠ ',' ∧ c ≠ ']' ∧ c ≠ '\x7d') {tail : List Char}
    (same : cs ++ rest = c :: tail) : ∃ more, cs = c :: more := by
  cases cs with
  | nil => exact absurd same (stops.ne other tail)
  | cons d more => exact ⟨more, by rw [(List.cons.inj same).1]⟩

theorem Stops.takeWhile_isDigit (stops : Stops rest) : rest.takeWhile Char.isDigit = [] := by
  cases rest with
  | nil => rfl
  | cons c tail =>
    have marked : c.isDigit = false := by rcases stops c rfl with rfl | rfl | rfl <;> decide
    rw [List.takeWhile_cons, marked]
    rfl

theorem Stops.dropWhile_isDigit (stops : Stops rest) : rest.dropWhile Char.isDigit = rest := by
  have split := @List.takeWhile_append_dropWhile Char Char.isDigit rest
  rwa [stops.takeWhile_isDigit] at split

theorem readDigits_append (stops : Stops rest) :
    readDigits (cs ++ rest) = ((readDigits cs).1, (readDigits cs).2 ++ rest) := by
  induction cs with
  | nil => simp [readDigits, stops.takeWhile_isDigit, stops.dropWhile_isDigit]
  | cons c cs ih =>
    unfold readDigits at ih ⊢
    by_cases digit : c.isDigit = true
    · simp only [List.cons_append, List.takeWhile_cons, List.dropWhile_cons, digit, if_true, Prod.mk.injEq,
        List.map_cons, List.cons.injEq, true_and] at ih ⊢
      exact ih
    · simp only [List.cons_append, List.takeWhile_cons, List.dropWhile_cons, digit, if_false, Bool.false_eq_true]

theorem readDigits?_append {digits : List Nat} (read : readDigits? cs = some (digits, after)) (stops : Stops rest) :
    readDigits? (cs ++ rest) = some (digits, after ++ rest) := by
  unfold readDigits? at read ⊢
  rw [readDigits_append stops]
  generalize readDigits cs = found at *
  obtain ⟨_ | ⟨first, more⟩, left⟩ := found
  · cases read
  · cases read
    rfl

theorem readWhole_append {digits : List Nat} (read : readWhole cs = some (digits, after)) (stops : Stops rest) :
    readWhole (cs ++ rest) = some (digits, after ++ rest) := by
  unfold readWhole at read ⊢
  split at read
  next => cases read
  next zeroless =>
    rw [readDigits?_append read stops]
    split
    next same =>
      cases same
      exact absurd read (zeroless _ _ _)
    next => rfl

theorem readFraction_append {digits : Option (List Nat)} (read : readFraction cs = some (digits, after))
    (stops : Stops rest) : readFraction (cs ++ rest) = some (digits, after ++ rest) := by
  unfold readFraction at read
  split at read
  next more =>
    obtain ⟨⟨found, left⟩, isFound, same⟩ := Option.map_eq_some_iff.mp read
    cases same
    show (readDigits? (more ++ rest)).map _ = _
    rw [readDigits?_append isFound stops]
    rfl
  next pointless =>
    cases read
    rw [readFraction]
    intro tail same
    obtain ⟨more, isPoint⟩ := stops.cons_of_append (by decide) same
    exact pointless more isPoint

/-- The sign and the digits of an exponent. -/
def readSigned (negative : Bool) (cs : List Char) : Option (Option (Bool × List Nat) × List Char) :=
  (readDigits? cs).map (fun (digits, after) => (some (negative, digits), after))

/-- What follows the mark of an exponent. -/
def readMarked : List Char → Option (Option (Bool × List Nat) × List Char)
  | '+' :: rest => readSigned false rest
  | '-' :: rest => readSigned true rest
  | rest => readSigned false rest

theorem readExponent_unmarked (small : ∀ more, cs ≠ 'e' :: more) (capital : ∀ more, cs ≠ 'E' :: more) :
    readExponent cs = some (none, cs) := by
  unfold readExponent
  dsimp only
  split
  next more => exact absurd rfl (small more)
  next more => exact absurd rfl (capital more)
  next => rfl

theorem readSigned_append {negative : Bool} {digits : Option (Bool × List Nat)}
    (read : readSigned negative cs = some (digits, after)) (stops : Stops rest) :
    readSigned negative (cs ++ rest) = some (digits, after ++ rest) := by
  obtain ⟨⟨found, left⟩, isFound, same⟩ := Option.map_eq_some_iff.mp read
  cases same
  rw [readSigned, readDigits?_append isFound stops]
  rfl

theorem readMarked_append {digits : Option (Bool × List Nat)} (read : readMarked cs = some (digits, after))
    (stops : Stops rest) : readMarked (cs ++ rest) = some (digits, after ++ rest) := by
  unfold readMarked at read
  split at read
  next more => exact readSigned_append read stops
  next more => exact readSigned_append read stops
  next plus minus =>
    rw [readMarked]
    · exact readSigned_append read stops
    · intro tail same
      obtain ⟨more, isPlus⟩ := stops.cons_of_append (by decide) same
      exact plus more isPlus
    · intro tail same
      obtain ⟨more, isMinus⟩ := stops.cons_of_append (by decide) same
      exact minus more isMinus

theorem readExponent_append {digits : Option (Bool × List Nat)} (read : readExponent cs = some (digits, after))
    (stops : Stops rest) : readExponent (cs ++ rest) = some (digits, after ++ rest) := by
  by_cases small : ∃ more, cs = 'e' :: more
  · obtain ⟨more, rfl⟩ := small
    exact readMarked_append read stops
  by_cases capital : ∃ more, cs = 'E' :: more
  · obtain ⟨more, rfl⟩ := capital
    exact readMarked_append read stops
  rw [readExponent_unmarked (fun more same => small ⟨more, same⟩) (fun more same => capital ⟨more, same⟩)] at read
  cases read
  refine readExponent_unmarked (fun tail same => ?_) (fun tail same => ?_)
  · exact small (stops.cons_of_append (by decide) same)
  · exact capital (stops.cons_of_append (by decide) same)

/-- A literal behind its sign. -/
def readUnsigned (negative : Bool) (cs : List Char) : Option (Literal × List Char) := do
  let (whole, cs) ← readWhole cs
  let (fraction, cs) ← readFraction cs
  let (exponent, cs) ← readExponent cs
  return (⟨negative, whole, fraction, exponent⟩, cs)

theorem readLiteral_minus : readLiteral ('-' :: cs) = readUnsigned true cs := rfl

theorem readLiteral_plain (plain : ∀ more, cs ≠ '-' :: more) : readLiteral cs = readUnsigned false cs := by
  unfold readLiteral
  split
  next negative tail same =>
    split at same
    next more => exact absurd rfl (plain more)
    next =>
      cases same
      rfl

theorem readUnsigned_eq_some_iff {negative : Bool} {l : Literal} : readUnsigned negative cs = some (l, after) ↔
    ∃ behindWhole behindFraction, l.negative = negative ∧ readWhole cs = some (l.whole, behindWhole) ∧
      readFraction behindWhole = some (l.fraction, behindFraction) ∧
      readExponent behindFraction = some (l.exponent, after) := by
  constructor
  · intro read
    obtain ⟨⟨whole, behindWhole⟩, isWhole, read⟩ := Option.bind_eq_some_iff.mp read
    obtain ⟨⟨fraction, behindFraction⟩, isFraction, read⟩ := Option.bind_eq_some_iff.mp read
    obtain ⟨⟨exponent, behind⟩, isExponent, read⟩ := Option.bind_eq_some_iff.mp read
    cases read
    exact ⟨behindWhole, behindFraction, rfl, isWhole, isFraction, isExponent⟩
  · rintro ⟨behindWhole, behindFraction, rfl, isWhole, isFraction, isExponent⟩
    refine Option.bind_eq_some_iff.mpr ⟨_, isWhole, Option.bind_eq_some_iff.mpr ⟨_, isFraction, ?_⟩⟩
    exact Option.bind_eq_some_iff.mpr ⟨_, isExponent, rfl⟩

theorem readUnsigned_append {negative : Bool} {l : Literal} (read : readUnsigned negative cs = some (l, after))
    (stops : Stops rest) : readUnsigned negative (cs ++ rest) = some (l, after ++ rest) := by
  obtain ⟨behindWhole, behindFraction, sign, isWhole, isFraction, isExponent⟩ := readUnsigned_eq_some_iff.mp read
  exact readUnsigned_eq_some_iff.mpr ⟨_, _, sign, readWhole_append isWhole stops, readFraction_append isFraction stops,
    readExponent_append isExponent stops⟩

/-- Reading a number does not depend on what follows it. -/
theorem readLiteral_append {l : Literal} (read : readLiteral cs = some (l, after)) (stops : Stops rest) :
    readLiteral (cs ++ rest) = some (l, after ++ rest) := by
  by_cases minus : ∃ more, cs = '-' :: more
  · obtain ⟨more, rfl⟩ := minus
    exact readUnsigned_append read stops
  · rw [readLiteral_plain (fun more same => minus ⟨more, same⟩)] at read
    rw [readLiteral_plain (fun tail same => minus (stops.cons_of_append (by decide) same))]
    exact readUnsigned_append read stops

theorem readDigits?_eq_some {digits : List Nat} (read : readDigits? cs = some (digits, after)) :
    (∃ c more, cs = c :: more ∧ c.isDigit = true) ∧ after <:+ cs := by
  unfold readDigits? readDigits at read
  split at read
  next => cases read
  next found nonempty =>
    cases read
    refine ⟨?_, List.dropWhile_suffix _⟩
    cases cs with
    | nil => exact absurd rfl (nonempty _)
    | cons c more =>
      refine ⟨c, more, rfl, ?_⟩
      by_contra other
      exact nonempty (c :: more) (by simp [other])

theorem readWhole_eq_some {digits : List Nat} (read : readWhole cs = some (digits, after)) :
    readDigits? cs = some (digits, after) := by
  unfold readWhole at read
  split at read
  next => cases read
  next => exact read

theorem suffix_of_readFraction {digits : Option (List Nat)} (read : readFraction cs = some (digits, after)) :
    after <:+ cs := by
  unfold readFraction at read
  split at read
  next more =>
    obtain ⟨⟨found, left⟩, isFound, same⟩ := Option.map_eq_some_iff.mp read
    cases same
    exact (readDigits?_eq_some isFound).2.trans (List.suffix_cons _ _)
  next =>
    cases read
    exact List.suffix_rfl

theorem suffix_of_readMarked {digits : Option (Bool × List Nat)} (read : readMarked cs = some (digits, after)) :
    after <:+ cs := by
  have signed : ∀ negative more, readSigned negative more = some (digits, after) → after <:+ more := by
    intro negative more isRead
    obtain ⟨⟨found, left⟩, isFound, same⟩ := Option.map_eq_some_iff.mp isRead
    cases same
    exact (readDigits?_eq_some isFound).2
  unfold readMarked at read
  split at read
  next more => exact (signed false more read).trans (List.suffix_cons _ _)
  next more => exact (signed true more read).trans (List.suffix_cons _ _)
  next => exact signed false cs read

theorem suffix_of_readExponent {digits : Option (Bool × List Nat)} (read : readExponent cs = some (digits, after)) :
    after <:+ cs := by
  by_cases small : ∃ more, cs = 'e' :: more
  · obtain ⟨more, rfl⟩ := small
    exact (suffix_of_readMarked read).trans (List.suffix_cons _ _)
  by_cases capital : ∃ more, cs = 'E' :: more
  · obtain ⟨more, rfl⟩ := capital
    exact (suffix_of_readMarked read).trans (List.suffix_cons _ _)
  rw [readExponent_unmarked (fun more same => small ⟨more, same⟩) (fun more same => capital ⟨more, same⟩)] at read
  cases read
  exact List.suffix_rfl

/-- A literal begins with its sign or with a digit, and what follows it is the rest of the text. -/
theorem readLiteral_eq_some {l : Literal} (read : readLiteral cs = some (l, after)) :
    (∃ c more, cs = c :: more ∧ (c = '-' ∨ c.isDigit = true)) ∧ after <:+ cs := by
  have unsigned : ∀ negative more, readUnsigned negative more = some (l, after) →
      (∃ c tail, more = c :: tail ∧ c.isDigit = true) ∧ after <:+ more := by
    intro negative more isRead
    obtain ⟨_, _, _, isWhole, isFraction, isExponent⟩ := readUnsigned_eq_some_iff.mp isRead
    obtain ⟨first, whole⟩ := readDigits?_eq_some (readWhole_eq_some isWhole)
    exact ⟨first, (suffix_of_readExponent isExponent).trans ((suffix_of_readFraction isFraction).trans whole)⟩
  by_cases minus : ∃ more, cs = '-' :: more
  · obtain ⟨more, rfl⟩ := minus
    exact ⟨⟨'-', more, rfl, .inl rfl⟩, (unsigned true more read).2.trans (List.suffix_cons _ _)⟩
  · rw [readLiteral_plain (fun more same => minus ⟨more, same⟩)] at read
    obtain ⟨⟨c, tail, same, digit⟩, suffix⟩ := unsigned false cs read
    exact ⟨⟨c, tail, same, .inr digit⟩, suffix⟩

end Numbers

/-- The digits of a number, from the first to the last. -/
def digitsOf (n : Nat) : List Nat := (Nat.toDigits 10 n).map (fun c => c.toNat - 48)

theorem ofDigits_digitsOf (n : Nat) : ofDigits (digitsOf n) = n := by
  rw [ofDigits, digitsOf, List.foldl_map]
  exact Nat.ofDigitChars_toDigits (by decide) (by decide)

theorem isDigit_toDigits (n : Nat) : ∀ c ∈ Nat.toDigits 10 n, c.isDigit = true :=
  fun _ member => Nat.isDigit_of_mem_toDigits (by decide) (by decide) member

/-- The first digit of a number is zero for zero alone. -/
theorem digitsOf_head (n : Nat) : ∃ first more, digitsOf n = first :: more ∧ (first = 0 → more = []) := by
  induction n using Nat.strong_induction_on with
  | _ n ih =>
    by_cases small : n < 10
    · refine ⟨_, [], by rw [digitsOf, Nat.toDigits_of_lt_base small]; rfl, fun _ => rfl⟩
    · have split : digitsOf n = digitsOf (n / 10) ++ [(n % 10).digitChar.toNat - 48] := by
        rw [digitsOf, Nat.toDigits_of_base_le (by decide) (by omega), List.map_append]
        rfl
      obtain ⟨first, more, head, zero⟩ := ih (n / 10) (by omega)
      refine ⟨first, more ++ [(n % 10).digitChar.toNat - 48], by rw [split, head]; rfl, fun isZero => ?_⟩
      -- A number whose digits are a single zero is zero, but there are ten or more tens in `n`.
      have value := ofDigits_digitsOf (n / 10)
      rw [head, isZero, zero isZero] at value
      simp [ofDigits] at value
      omega

theorem readWhole_toDigits (n : Nat) {rest : List Char} (stops : Stops rest) :
    readWhole (Nat.toDigits 10 n ++ rest) = some (digitsOf n, rest) := by
  have all : readDigits (Nat.toDigits 10 n ++ rest) = (digitsOf n, rest) := by
    rw [readDigits, List.takeWhile_append_of_pos (isDigit_toDigits n), List.dropWhile_append_of_pos (isDigit_toDigits n),
      stops.takeWhile_isDigit, stops.dropWhile_isDigit, List.append_nil]
    rfl
  obtain ⟨first, more, head, zero⟩ := digitsOf_head n
  unfold readWhole readDigits?
  rw [all, head]
  split
  next same =>
    cases same
    cases zero rfl
  next => rfl

theorem Stops.readFraction {rest : List Char} (stops : Stops rest) : readFraction rest = some (none, rest) := by
  rw [Json.readFraction]
  exact stops.ne (by decide)

theorem Stops.readExponent {rest : List Char} (stops : Stops rest) : readExponent rest = some (none, rest) :=
  readExponent_unmarked (stops.ne (by decide)) (stops.ne (by decide))

/-- The literal that is written for a whole number. -/
def integerLiteral (n : Int) : Literal := ⟨decide (n < 0), digitsOf n.natAbs, none, none⟩

theorem readLiteral_integer (n : Int) {rest : List Char} (stops : Stops rest) :
    readLiteral ((Number.integer n).text.toList ++ rest) = some (integerLiteral n, rest) := by
  have unsigned : readUnsigned (decide (n < 0)) (Nat.toDigits 10 n.natAbs ++ rest) = some (integerLiteral n, rest) :=
    readUnsigned_eq_some_iff.mpr ⟨rest, rest, rfl, readWhole_toDigits n.natAbs stops, stops.readFraction,
      stops.readExponent⟩
  by_cases negative : n < 0
  · have text : (Number.integer n).text.toList = '-' :: Nat.toDigits 10 n.natAbs := by
      rw [Number.text, if_pos negative, String.toList_append, Nat.toList_repr]
      rfl
    rw [text, List.cons_append, readLiteral_minus, ← decide_eq_true negative]
    exact unsigned
  · have text : (Number.integer n).text.toList = Nat.toDigits 10 n.natAbs := by
      rw [Number.text, if_neg negative, Nat.toList_repr]
    rw [text, readLiteral_plain, ← decide_eq_false negative]
    · exact unsigned
    · intro more same
      obtain ⟨⟨c, tail, isDigits, digit⟩, _⟩ :=
        readDigits?_eq_some (readWhole_eq_some (readWhole_toDigits n.natAbs stops))
      cases isDigits.symm.trans same
      revert digit
      decide

/-- Whole numbers that fit into 64 bits, with or without sign. -/
def InRange (n : Int) : Prop := -(Nat.pow 2 63 : Int) ≤ n ∧ n ≤ maxSignificand

theorem integer?_integerLiteral {n : Int} (inRange : InRange n) : (integerLiteral n).integer? = some n := by
  obtain ⟨low, high⟩ := inRange
  have value : ofDigits (integerLiteral n).whole = n.natAbs := ofDigits_digitsOf _
  unfold Literal.integer?
  rw [value]
  by_cases negative : n < 0
  · have small : 0 < n.natAbs ∧ n.natAbs ≤ Nat.pow 2 63 := by omega
    have restored : -(n.natAbs : Int) = n := by omega
    simp only [integerLiteral, Option.isSome_none, Bool.or_false, Bool.false_eq_true, if_false, negative, decide_true,
      if_true, small, Bool.and_true, restored]
  · have small : n.natAbs ≤ maxSignificand := by omega
    have restored : (n.natAbs : Int) = n := by omega
    simp only [integerLiteral, Option.isSome_none, Bool.or_false, Bool.false_eq_true, if_false, negative, decide_false,
      small, if_true, restored]

/-- A literal that denotes a whole number denotes one in the range. -/
theorem inRange_of_integer? {l : Literal} {n : Int} (isInteger : l.integer? = some n) : InRange n := by
  have top : Nat.pow 2 63 ≤ maxSignificand := by decide
  unfold Literal.integer? at isInteger
  dsimp only at isInteger
  split at isInteger
  next => cases isInteger
  next =>
    split at isInteger
    next =>
      split at isInteger
      next small =>
        cases isInteger
        rw [Bool.and_eq_true, decide_eq_true_eq, decide_eq_true_eq] at small
        exact ⟨by omega, by omega⟩
      next => cases isInteger
    next =>
      split at isInteger
      next small =>
        cases isInteger
        exact ⟨by omega, by omega⟩
      next => cases isInteger

/-- The text holds no blanks. -/
def unspaced (text : String) : Bool := text.toList.all (fun c => !isSpace c)

theorem unspaced_append {a b : String} (left : unspaced a = true) (right : unspaced b = true) :
    unspaced (a ++ b) = true := by
  rw [unspaced, String.toList_append, List.all_append, Bool.and_eq_true]
  exact ⟨left, right⟩

theorem unspaced_ofList {cs : List Char} (digits : ∀ c ∈ cs, c.isDigit = true) : unspaced (String.ofList cs) = true := by
  have notSpace : ∀ c, isSpace c = true → c.isDigit = false := by
    intro c space
    simp only [isSpace, Bool.or_eq_true, beq_iff_eq] at space
    rcases space with ((rfl | rfl) | rfl) | rfl <;> decide
  rw [unspaced, String.toList_ofList, List.all_eq_true]
  intro c member
  rw [Bool.not_eq_true']
  by_contra space
  rw [Bool.not_eq_false] at space
  cases (digits c member).symm.trans (notSpace c space)

theorem unspaced_repr (n : Nat) : unspaced (Nat.repr n) = true := by
  rw [← String.ofList_toList (s := Nat.repr n), Nat.toList_repr]
  exact unspaced_ofList (isDigit_toDigits n)

theorem unspaced_layout {digits : String} (isDigits : ∀ c ∈ digits.toList, c.isDigit = true) (point : Int) :
    unspaced (layout digits point) = true := by
  have all : unspaced digits = true := by
    rw [← String.ofList_toList (s := digits)]
    exact unspaced_ofList isDigits
  have zeros : ∀ count, unspaced (String.ofList (List.replicate count '0')) = true :=
    fun count => unspaced_ofList (fun c member => by rw [List.eq_of_mem_replicate member]; decide)
  have front : ∀ count, unspaced (String.ofList (digits.toList.take count)) = true :=
    fun count => unspaced_ofList (fun c member => isDigits c (List.mem_of_mem_take member))
  have back : ∀ count, unspaced (String.ofList (digits.toList.drop count)) = true :=
    fun count => unspaced_ofList (fun c member => isDigits c (List.mem_of_mem_drop member))
  unfold layout
  dsimp only
  split
  next => exact unspaced_append (unspaced_append (by decide) (zeros _)) all
  next =>
    split
    next =>
      split
      next => exact unspaced_append (unspaced_append all (zeros _)) (by decide)
      next => exact unspaced_append (unspaced_append (front _) (by decide)) (back _)
    next =>
      refine unspaced_append (unspaced_append (unspaced_append ?_ (by decide)) ?_) (unspaced_repr _)
      · split
        next => exact front 1
        next => exact unspaced_append (unspaced_append (front 1) (by decide)) (back 1)
      · split <;> decide

theorem unspaced_doubleText (x : Float) : unspaced (doubleText x) = true := by
  have sign : unspaced (if x.toBits.toNat / Nat.pow 2 63 = 1 then "-" else "") = true := by split <;> decide
  unfold doubleText
  dsimp only
  split
  next => exact unspaced_append sign (by decide)
  next =>
    refine unspaced_append sign (unspaced_layout (fun c member => ?_) _)
    rw [Nat.toList_repr] at member
    exact isDigit_toDigits _ c member

end DspPatch.Json
