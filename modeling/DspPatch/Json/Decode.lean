import DspPatch.Json.Value

/-!
Reading domain data from documents. A decoder gets the number of containers that may still be nested. A record is an
object, in which a declared field occurs at most once, or an array with the fields in their declared order; what stands
under a key that the record does not declare is refused or left alone, and then need not denote a value.
-/
namespace DspPatch.Json

/-- Reads a value of type `α` where at most that many further containers may be nested. -/
abbrev Decoder (α : Type) := Nat → Document → Option α

namespace Decoder
variable {α : Type}

def text : Decoder String
  | _, .string text => text
  | _, _ => none

def flag : Decoder Bool
  | _, .bool b => some b
  | _, _ => none

/-- A whole number below `2 ^ 32`, spelled without fraction and exponent. -/
def word : Decoder Nat
  | _, .number literal => literal.integer?.bind (fun n => if 0 ≤ n && n < Int.pow 2 32 then some n.toNat else none)
  | _, _ => none

/-- Any number, as a double. -/
def double : Decoder Float
  | _, .number literal =>
    match literal.integer? with
    | some n => some (if n < 0 then -n.natAbs.toUInt64.toFloat else n.natAbs.toUInt64.toFloat)
    | none => literal.double?
  | _, _ => none

def value : Decoder Value := Document.value?

/-- Null is none. -/
def optional (decode : Decoder α) : Decoder (Option α)
  | _, .null => some none
  | room, document => (decode room document).map some

def list (decode : Decoder α) : Decoder (List α)
  | room + 1, .array items => items.mapM (decode room)
  | _, _ => none

/-- An object whose keys are free. -/
def table (decode : Decoder α) : Decoder (Table α)
  | room + 1, .object members => do
    let entries ← members.mapM (fun (key, document) => do return (← key, ← decode room document))
    return Table.ofList entries
  | _, _ => none

/-- Reads a whole text. -/
def run (decode : Decoder α) (text : String) : Option α := (Document.read text).bind (decode maxNesting)

end Decoder

/-- The fields of a record that are present. -/
structure Fields where
  /-- The record is an array. -/
  positional : Bool
  present : List (String × Document)
  /-- The number of containers that may be nested in a field. -/
  room : Nat

namespace Fields
variable {α : Type}

/-- The fields of a record that declares `names`; other keys are refused unless the record is `lenient`. -/
def ofDocument? (names : List String) (lenient : Bool) : Decoder Fields
  | room + 1, .object members => do
    let entries ← members.mapM (fun (key, document) => do return (← key, document))
    let declared := entries.filter (fun entry => names.contains entry.1)
    if (declared.map Prod.fst).eraseDups.length < declared.length then none
    else if !lenient && declared.length < entries.length then none
    else some ⟨false, declared, room⟩
  | room + 1, .array items => if names.length < items.length then none else some ⟨true, names.zip items, room⟩
  | _, _ => none

/-- A field that has to be present. -/
def required (f : Fields) (name : String) (decode : Decoder α) : Option α :=
  (f.present.lookup name).bind (decode f.room)

/-- A field that may be null and, in an object, absent. -/
def optional (f : Fields) (name : String) (decode : Decoder α) : Option (Option α) :=
  match f.present.lookup name with
  | some document => decode.optional f.room document
  | none => if f.positional then none else some none

/-- A field that may be absent. -/
def withDefault (f : Fields) (name : String) (decode : Decoder α) (default : α) : Option α :=
  match f.present.lookup name with
  | some document => decode f.room document
  | none => some default

end Fields
end DspPatch.Json
