import DspPatch.Json.Document
import DspPatch.Table

/-!
JSON values and their text. A value is what a document denotes: numbers are whole numbers or doubles, an object holds
each key once, in the order in which keys first came in and with the last value given to them.
-/
namespace DspPatch.Json

inductive Value where
  | null
  | bool (value : Bool)
  | number (value : Number)
  | string (text : String)
  | array (items : List Value)
  | object (members : List (String × Value))

instance : Inhabited Value := ⟨.null⟩

/-- The number of containers that may be nested. -/
def maxNesting : Nat := 127

mutual

/-- The value of a document in which at most `room` further containers are nested. -/
def Document.value? (room : Nat) : Document → Option Value
  | .null => some .null
  | .bool b => some (.bool b)
  | .number literal => literal.number?.map .number
  | .string text => text.map .string
  | .array items =>
    match room with
    | 0 => none
    | room + 1 => (Document.values? room items).map .array
  | .object members =>
    match room with
    | 0 => none
    | room + 1 => (Document.memberValues? room [] members).map .object

/-- The values of the items, in order. -/
def Document.values? (room : Nat) : List Document → Option (List Value)
  | [] => some []
  | item :: rest => do
    let value ← Document.value? room item
    let values ← Document.values? room rest
    return value :: values

/-- The members written one after the other onto those read so far. -/
def Document.memberValues? (room : Nat) (before : List (String × Value)) :
    List (Option String × Document) → Option (List (String × Value))
  | [] => some before
  | (key, document) :: rest => do
    let key ← key
    let value ← Document.value? room document
    Document.memberValues? room (putEntry key value before) rest

end

/-- The value that a text denotes. -/
def Value.read (text : String) : Option Value := (Document.read text).bind (Document.value? maxNesting)

/-- The lower-case hexadecimal digit. -/
def hexDigit (n : Nat) : Char := Char.ofNat (if n < 10 then 48 + n else 87 + n)

/-- A character inside a string: quotes, backslashes and control characters are escaped. -/
def escapeChar (c : Char) : List Char :=
  if c == '"' then ['\\', '"']
  else if c == '\\' then ['\\', '\\']
  else if c == '\x08' then ['\\', 'b']
  else if c == '\x0c' then ['\\', 'f']
  else if c == '\n' then ['\\', 'n']
  else if c == '\r' then ['\\', 'r']
  else if c == '\t' then ['\\', 't']
  else if c.toNat < 0x20 then ['\\', 'u', '0', '0', hexDigit (c.toNat / 16), hexDigit (c.toNat % 16)]
  else [c]

/-- A text in quotes. -/
def quoted (text : String) : String := "\"" ++ String.ofList (text.toList.flatMap escapeChar) ++ "\""

mutual

/-- The text of a value without blanks. -/
def Value.compact : Value → String
  | .null => "null"
  | .bool true => "true"
  | .bool false => "false"
  | .number n => n.text
  | .string text => quoted text
  | .array items => "[" ++ ",".intercalate (Value.compactItems items) ++ "]"
  | .object members => "\x7b" ++ ",".intercalate (Value.compactMembers members) ++ "\x7d"

def Value.compactItems : List Value → List String
  | [] => []
  | item :: rest => item.compact :: Value.compactItems rest

def Value.compactMembers : List (String × Value) → List String
  | [] => []
  | (key, value) :: rest => (quoted key ++ ":" ++ value.compact) :: Value.compactMembers rest

end

/-- Parts on lines of their own between two brackets, or the brackets alone. -/
def bracketed (left right indent : String) (parts : List String) : String :=
  if parts.isEmpty then left ++ right
  else left ++ "\n" ++ ",\n".intercalate (parts.map (fun part => indent ++ "  " ++ part)) ++ "\n" ++ indent ++ right

mutual

/-- The text of a value with every item and member on a line of its own, two blanks deeper than its container. -/
def Value.pretty (indent : String) : Value → String
  | .array items => bracketed "[" "]" indent (Value.prettyItems (indent ++ "  ") items)
  | .object members => bracketed "\x7b" "\x7d" indent (Value.prettyMembers (indent ++ "  ") members)
  | .null => "null"
  | .bool true => "true"
  | .bool false => "false"
  | .number n => n.text
  | .string text => quoted text

def Value.prettyItems (indent : String) : List Value → List String
  | [] => []
  | item :: rest => item.pretty indent :: Value.prettyItems indent rest

def Value.prettyMembers (indent : String) : List (String × Value) → List String
  | [] => []
  | (key, value) :: rest => (quoted key ++ ": " ++ value.pretty indent) :: Value.prettyMembers indent rest

end

namespace Value

/-- A list of texts. -/
def texts (items : List String) : Value := .array (items.map .string)

/-- A whole number. -/
def nat (n : Nat) : Value := .number (.integer n)

/-- A text, or null. -/
def ofText? : Option String → Value
  | none => .null
  | some text => .string text

/-- A table as an object. -/
def ofTable {α : Type} (f : α → Value) (t : Table α) : Value :=
  .object (t.entries.map (fun entry => (entry.1, f entry.2)))

end Value
end DspPatch.Json
