import DspPatch.Decimal.Shortest

/-!
JSON numbers. A literal is a whole number when it has no fraction and no exponent and fits into 64 bits; every other
literal is a double. Doubles are written with their shortest digits, positionally where that is at most sixteen places
before the point and five after it, and with an exponent otherwise.
-/
namespace DspPatch.Json

/-- A number as it is spelled: digits before the point, after it, and of the exponent. -/
structure Literal where
  negative : Bool
  whole : List Nat
  fraction : Option (List Nat)
  exponent : Option (Bool × List Nat)

inductive Number where
  | integer (n : Int)
  | double (x : Float)

/-- A significand with its power of ten. -/
structure Scaled where
  significand : Nat
  exponent : Int

/-- The largest significand. -/
def maxSignificand : Nat := Nat.pow 2 64 - 1

/-- The digits before the point. Once a digit does not fit into the significand, it and all later ones only raise the
    exponent. -/
def Scaled.ofWhole (s : Scaled) : List Nat → Scaled
  | [] => s
  | digit :: rest =>
    if s.significand * 10 + digit > maxSignificand then ⟨s.significand, s.exponent + (rest.length + 1)⟩
    else Scaled.ofWhole ⟨s.significand * 10 + digit, s.exponent⟩ rest

/-- The digits after the point, up to the first one that does not fit into the significand. -/
def Scaled.withFraction (s : Scaled) : List Nat → Scaled
  | [] => s
  | digit :: rest =>
    if s.significand * 10 + digit > maxSignificand then s
    else Scaled.withFraction ⟨s.significand * 10 + digit, s.exponent - 1⟩ rest

/-- The value of a run of decimal digits. -/
def ofDigits (digits : List Nat) : Nat := digits.foldl (fun n digit => 10 * n + digit) 0

/-- The double `10 ^ n`. -/
def powerOfTen (n : Nat) : Float := Float.ofScientific 1 false n

/-- `x * 10 ^ exponent` by one multiplication or division, or none where the result is too large. Below the smallest
    power of ten the division is made in steps. -/
def scale (x : Float) (exponent : Int) : Option Float :=
  if exponent.natAbs ≤ 308 then
    if 0 ≤ exponent then
      let y := x * powerOfTen exponent.natAbs
      if y.isInf then none else some y
    else some (x / powerOfTen exponent.natAbs)
  else if x == 0 then some x
  else if 0 ≤ exponent then none
  else scale (x / powerOfTen 308) (exponent + 308)
termination_by exponent.natAbs
decreasing_by omega

namespace Literal

/-- The significand of a literal with its power of ten. -/
def scaled (l : Literal) : Scaled :=
  let s := (Scaled.ofWhole ⟨0, 0⟩ l.whole).withFraction (l.fraction.getD [])
  match l.exponent with
  | none => s
  | some (true, digits) => ⟨s.significand, s.exponent - ofDigits digits⟩
  | some (false, digits) => ⟨s.significand, s.exponent + ofDigits digits⟩

/-- The literal as a double, or none where it is too large. -/
def double? (l : Literal) : Option Float :=
  let s := l.scaled
  (scale s.significand.toUInt64.toFloat s.exponent).map (fun x => if l.negative then -x else x)

/-- The whole number a literal denotes: no fraction, no exponent, at least `-2 ^ 63` and below `2 ^ 64`. A zero with a
    minus sign is not a whole number. -/
def integer? (l : Literal) : Option Int :=
  if l.fraction.isSome || l.exponent.isSome then none
  else
    let n := ofDigits l.whole
    if l.negative then (if 0 < n && n ≤ Nat.pow 2 63 then some (-(n : Int)) else none)
    else if n ≤ maxSignificand then some n else none

/-- The number a literal denotes, or none where it is too large for a double. -/
def number? (l : Literal) : Option Number :=
  match l.integer? with
  | some n => some (.integer n)
  | none => l.double?.map .double

end Literal

/-- Digits `d₁d₂…` with the point behind the first `point` of them: positional where the first digit stands between
    `10 ^ (-5)` and `10 ^ 15`, else with a signed exponent. -/
def layout (digits : String) (point : Int) : String :=
  let count : Int := digits.length
  if -4 ≤ point && point ≤ 0 then "0." ++ String.ofList (List.replicate (-point).toNat '0') ++ digits
  else if 0 < point && point ≤ 16 then
    if count ≤ point then digits ++ String.ofList (List.replicate (point - count).toNat '0') ++ ".0"
    else String.ofList (digits.toList.take point.toNat) ++ "." ++ String.ofList (digits.toList.drop point.toNat)
  else
    let head := String.ofList (digits.toList.take 1)
    let tail := String.ofList (digits.toList.drop 1)
    let significand := if tail.isEmpty then head else head ++ "." ++ tail
    let exponent := point - 1
    significand ++ "e" ++ (if exponent < 0 then "-" else "+") ++ Nat.repr exponent.natAbs

/-- A finite double with its shortest digits; zero keeps its sign. -/
def doubleText (x : Float) : String :=
  let bits := x.toBits.toNat
  let sign := if bits / Nat.pow 2 63 = 1 then "-" else ""
  if bits % Nat.pow 2 63 = 0 then sign ++ "0.0"
  else
    let d := Decimal.shortest (bits % Nat.pow 2 63)
    let digits := Nat.repr d.digits
    sign ++ layout digits (digits.length + d.exponent)

/-- The text of a number. -/
def Number.text : Number → String
  | integer n => if n < 0 then "-" ++ Nat.repr n.natAbs else Nat.repr n.natAbs
  | double x => doubleText x

end DspPatch.Json
