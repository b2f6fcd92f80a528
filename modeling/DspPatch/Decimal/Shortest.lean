/-!
Doubles in decimal notation: the fewest significant digits that read back to the same double, and of those the nearest.
All choices are made in exact arithmetic on the significand and the exponent of the double.
-/
namespace DspPatch.Decimal

/-- A positive double as the fraction `value / unit`, with the ends `low / unit` and `high / unit` of the numbers that
    round to it. The ends round to it as well exactly when `closed`. -/
structure Rounding where
  value : Nat
  low : Nat
  high : Nat
  unit : Nat
  closed : Bool

/-- The rounding interval of the double with the given bits, without its sign. -/
def Rounding.ofBits (bits : Nat) : Rounding :=
  let fraction := bits % Nat.pow 2 52
  let biased := bits / Nat.pow 2 52 % Nat.pow 2 11
  let significand := if biased = 0 then fraction else fraction + Nat.pow 2 52
  -- The double is `significand * 2 ^ (exponent - 1075)`; quarters of a step make both ends whole numbers.
  let exponent := if biased = 0 then 1 else biased
  let scale := Nat.pow 2 (exponent - 1077)
  let below := if fraction = 0 && biased > 1 then 1 else 2
  { value := 4 * significand * scale
    low := (4 * significand - below) * scale
    high := (4 * significand + 2) * scale
    unit := Nat.pow 2 (1077 - exponent)
    closed := significand % 2 = 0 }

/-- A number `digits * 10 ^ exponent`. -/
structure Digits where
  digits : Nat
  exponent : Int
deriving DecidableEq, Repr

/-- `digits * 10 ^ exponent` rounds to the double. -/
def Rounding.contains (r : Rounding) (d : Digits) : Bool :=
  let point := d.digits * Nat.pow 10 d.exponent.toNat * r.unit
  let lift := Nat.pow 10 (-d.exponent).toNat
  if r.closed then r.low * lift ≤ point && point ≤ r.high * lift
  else r.low * lift < point && point < r.high * lift

/-- The better one of the multiples of `10 ^ exponent` next to the double, if one of them rounds to it: the nearer one,
    and at equal distance the one with an even last digit. -/
def Rounding.onGrid? (r : Rounding) (exponent : Int) : Option Digits :=
  let up := Nat.pow 10 (-exponent).toNat
  let step := Nat.pow 10 exponent.toNat * r.unit
  let floor := r.value * up / step
  let rest := r.value * up % step
  let lower : Digits := ⟨floor, exponent⟩
  let upper : Digits := ⟨floor + 1, exponent⟩
  let preferUpper := step < 2 * rest || (step = 2 * rest && floor % 2 = 1)
  match r.contains lower && floor > 0, r.contains upper with
  | true, true => some (if preferUpper then upper else lower)
  | true, false => some lower
  | false, true => some upper
  | false, false => none

/-- The first grid with a hit, from `10 ^ exponent` downwards. -/
def Rounding.search (r : Rounding) : Nat → Int → Digits
  | 0, exponent => ⟨0, exponent⟩
  | steps + 1, exponent => (r.onGrid? exponent).getD (r.search steps (exponent - 1))

/-- The shortest digits of the positive double with the given bits. No double needs a grid finer than `10 ^ (-342)`. -/
def shortest (bits : Nat) : Digits :=
  let r := Rounding.ofBits bits
  let start := (Nat.repr (r.value / r.unit)).length
  r.search (start + 343) start

end DspPatch.Decimal
