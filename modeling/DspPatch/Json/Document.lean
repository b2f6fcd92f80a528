import DspPatch.Json.Number

/-!
JSON text as a tree of what is spelled in it. Reading is strict: one value with nothing but blanks around it, no raw
control characters in strings, no superfluous commas or zeros. What a spelling denotes is decided later, when a value
is asked for: a string with half a surrogate pair and a number that is too large are well spelled and denote nothing.
-/
namespace DspPatch.Json

/-- A piece of a string: a character, or a code unit given by its number. -/
inductive StringUnit where
  | char (c : Char)
  | unit (n : Nat)

/-- A JSON text. A string that denotes no text is `none`. -/
inductive Document where
  | null
  | bool (value : Bool)
  | number (literal : Literal)
  | string (text : Option String)
  | array (items : List Document)
  | object (members : List (Option String × Document))

/-- The blanks that may stand between tokens. -/
def isSpace (c : Char) : Bool := c == ' ' || c == '\n' || c == '\t' || c == '\r'

def skipSpace (cs : List Char) : List Char := cs.dropWhile isSpace

/-- The value of a hexadecimal digit. -/
def hexDigit? (c : Char) : Option Nat :=
  if c.isDigit then some (c.toNat - 48)
  else if 'a' ≤ c && c ≤ 'f' then some (c.toNat - 87)
  else if 'A' ≤ c && c ≤ 'F' then some (c.toNat - 55)
  else none

/-- The character of an escape with one letter. -/
def escapedChar? : Char → Option Char
  | '"' => some '"'
  | '\\' => some '\\'
  | '/' => some '/'
  | 'b' => some '\x08'
  | 'f' => some '\x0c'
  | 'n' => some '\n'
  | 'r' => some '\r'
  | 't' => some '\t'
  | _ => none

/-- The code unit of an escape with four hexadecimal digits. -/
def codeUnit? (a b c d : Char) : Option Nat := do
  return ((← hexDigit? a) * 16 + (← hexDigit? b)) * 256 + (← hexDigit? c) * 16 + (← hexDigit? d)

/-- The units of a string up to its closing quote, and what follows it. -/
def readUnits : List Char → Option (List StringUnit × List Char)
  | [] => none
  | '"' :: rest => some ([], rest)
  | '\\' :: 'u' :: a :: b :: c :: d :: rest => do
    let n ← codeUnit? a b c d
    let (units, after) ← readUnits rest
    return (.unit n :: units, after)
  | '\\' :: letter :: rest => do
    let c ← escapedChar? letter
    let (units, after) ← readUnits rest
    return (.char c :: units, after)
  | c :: rest => do
    if c.toNat < 0x20 then none
    let (units, after) ← readUnits rest
    return (.char c :: units, after)

/-- The characters that units denote. Numbers from D800 to DBFF are the first half of a pair and need the second half,
    from DC00 to DFFF, directly after them; a second half alone denotes nothing. -/
def unitChars : List StringUnit → Option (List Char)
  | [] => some []
  | .char c :: rest => (unitChars rest).map (c :: ·)
  | .unit n :: .unit m :: rest =>
    if 0xD800 ≤ n && n < 0xDC00 then
      if 0xDC00 ≤ m && m < 0xE000 then
        (unitChars rest).map (Char.ofNat (0x10000 + (n - 0xD800) * 0x400 + (m - 0xDC00)) :: ·)
      else none
    else if 0xDC00 ≤ n && n < 0xE000 then none
    else (unitChars (.unit m :: rest)).map (Char.ofNat n :: ·)
  | .unit n :: rest =>
    if 0xD800 ≤ n && n < 0xE000 then none else (unitChars rest).map (Char.ofNat n :: ·)

/-- A string after its opening quote, and what follows it. -/
def readString (cs : List Char) : Option (Option String × List Char) := do
  let (units, rest) ← readUnits cs
  return ((unitChars units).map String.ofList, rest)

/-- The digits at the front, and what follows them. -/
def readDigits (cs : List Char) : List Nat × List Char :=
  ((cs.takeWhile Char.isDigit).map (fun c => c.toNat - 48), cs.dropWhile Char.isDigit)

/-- At least one digit, and what follows the digits. -/
def readDigits? (cs : List Char) : Option (List Nat × List Char) :=
  match readDigits cs with
  | ([], _) => none
  | found => some found

/-- The digits before the point: one zero, or a run that begins with another digit. -/
def readWhole (cs : List Char) : Option (List Nat × List Char) :=
  match readDigits? cs with
  | some (0 :: _ :: _, _) => none
  | found => found

/-- A point with digits after it, where there is one. -/
def readFraction : List Char → Option (Option (List Nat) × List Char)
  | '.' :: rest => (readDigits? rest).map (fun (digits, after) => (some digits, after))
  | cs => some (none, cs)

/-- An exponent, where there is one; its sign is negative when the flag is true. -/
def readExponent (cs : List Char) : Option (Option (Bool × List Nat) × List Char) :=
  let signed (negative : Bool) (rest : List Char) :=
    (readDigits? rest).map (fun (digits, after) => (some (negative, digits), after))
  let afterMark : List Char → Option (Option (Bool × List Nat) × List Char)
    | '+' :: rest => signed false rest
    | '-' :: rest => signed true rest
    | rest => signed false rest
  match cs with
  | 'e' :: rest => afterMark rest
  | 'E' :: rest => afterMark rest
  | _ => some (none, cs)

/-- A number literal, and what follows it. -/
def readLiteral (cs : List Char) : Option (Literal × List Char) := do
  let (negative, cs) := match cs with
    | '-' :: rest => (true, rest)
    | _ => (false, cs)
  let (whole, cs) ← readWhole cs
  let (fraction, cs) ← readFraction cs
  let (exponent, cs) ← readExponent cs
  return (⟨negative, whole, fraction, exponent⟩, cs)

mutual

/-- A value at the front, and what follows it. The first argument bounds the number of nested and successive steps. -/
def readValue : Nat → List Char → Option (Document × List Char)
  | 0, _ => none
  | fuel + 1, cs =>
    match cs with
    | 'n' :: 'u' :: 'l' :: 'l' :: rest => some (.null, rest)
    | 't' :: 'r' :: 'u' :: 'e' :: rest => some (.bool true, rest)
    | 'f' :: 'a' :: 'l' :: 's' :: 'e' :: rest => some (.bool false, rest)
    | '"' :: rest => (readString rest).map (fun (text, after) => (.string text, after))
    | '[' :: rest =>
      match skipSpace rest with
      | ']' :: after => some (.array [], after)
      | inside => (readItems fuel inside).map (fun (items, after) => (.array items, after))
    | '\x7b' :: rest =>
      match skipSpace rest with
      | '\x7d' :: after => some (.object [], after)
      | inside => (readMembers fuel inside).map (fun (members, after) => (.object members, after))
    | _ => (readLiteral cs).map (fun (literal, after) => (.number literal, after))

/-- The items of an array up to its closing bracket, and what follows it. -/
def readItems : Nat → List Char → Option (List Document × List Char)
  | 0, _ => none
  | fuel + 1, cs => do
    let (item, rest) ← readValue fuel (skipSpace cs)
    match skipSpace rest with
    | ']' :: after => some ([item], after)
    | ',' :: more => (readItems fuel more).map (fun (items, after) => (item :: items, after))
    | _ => none

/-- The members of an object up to its closing brace, and what follows it. -/
def readMembers : Nat → List Char → Option (List (Option String × Document) × List Char)
  | 0, _ => none
  | fuel + 1, cs => do
    let '"' :: rest := skipSpace cs | none
    let (key, rest) ← readString rest
    let ':' :: rest := skipSpace rest | none
    let (value, rest) ← readValue fuel (skipSpace rest)
    match skipSpace rest with
    | '\x7d' :: after => some ([(key, value)], after)
    | ',' :: more => (readMembers fuel more).map (fun (members, after) => ((key, value) :: members, after))
    | _ => none

end

/-- The document that a text spells. Every step of reading takes at least every second one of them a character. -/
def Document.read (text : String) : Option Document := do
  let cs := text.toList
  let (document, rest) ← readValue (2 * cs.length + 2) (skipSpace cs)
  if (skipSpace rest).isEmpty then some document else none

end DspPatch.Json
