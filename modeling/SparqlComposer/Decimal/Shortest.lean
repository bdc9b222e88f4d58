import SparqlComposer.Decimal.Binary
import SparqlComposer.Text.Basic

/-!
# Shortest decimals

The shortest decimal number that is read back as a given binary number. A binary number
`mantissa * 2 ^ exponent` stands for all reals that are rounded to it, an interval that holds its
ends when the mantissa is even. On the grids of 1, 2, … 17 decimal digits the two neighbours of the
number are tested; the first grid that meets the interval wins, of two hits the nearer one.
-/

namespace SparqlComposer.Decimal

/-- A positive binary number with the bounds of the reals that are rounded to it, all three as
multiples of `1 / unit`. -/
structure Rounding where
  low : Nat
  value : Nat
  high : Nat
  unit : Nat
  closed : Bool

/-- The rounding interval of `mantissa * 2 ^ exponent`; the step below the number is half as
long when the mantissa is the least of its length. -/
def Rounding.ofBinary (mantissa : Nat) (exponent : Int) (shortStep : Bool) : Rounding :=
  let scale := Nat.pow 2 exponent.toNat
  { low := (4 * mantissa - if shortStep then 1 else 2) * scale
    value := 4 * mantissa * scale
    high := (4 * mantissa + 2) * scale
    unit := 4 * Nat.pow 2 (-exponent).toNat
    closed := mantissa % 2 == 0 }

/-- Whether `number / unit` lies in the interval, for numbers given as `number / (unit * scale)`. -/
def Rounding.holds (r : Rounding) (number scale : Nat) : Bool :=
  if r.closed then r.low * scale ≤ number && number ≤ r.high * scale
  else r.low * scale < number && number < r.high * scale

/-- A decimal number: `digits * 10 ^ exponent`. -/
structure Shortest where
  digits : Nat
  exponent : Int

/-- The number of decimal digits before the point, or minus the number of zeros behind it. -/
def magnitude (value unit : Nat) : Int :=
  if unit ≤ value then (Nat.toDigits 10 (value / unit)).length
  else match (List.range 400).find? fun k ↦ unit ≤ value * Nat.pow 10 (k + 1) with
    | some zeros => -(zeros : Int)
    | none => -400

/-- The point of the grid of the given exponent that is rounded to the number and nearest to
it. -/
def Rounding.onGrid? (r : Rounding) (exponent : Int) : Option Shortest :=
  let scale := Nat.pow 10 (-exponent).toNat
  let step := r.unit * Nat.pow 10 exponent.toNat
  let below := r.value * scale / step
  let hitBelow := r.holds (below * step) scale
  let hitAbove := r.holds ((below + 1) * step) scale
  let distanceBelow := r.value * scale - below * step
  let distanceAbove := (below + 1) * step - r.value * scale
  let takeBelow := distanceBelow < distanceAbove ||
    (distanceBelow == distanceAbove && below % 2 == 0)
  if hitBelow && (takeBelow || !hitAbove) then some ⟨below, exponent⟩
  else if hitAbove then some ⟨below + 1, exponent⟩
  else none

def Rounding.shortest (r : Rounding) : Shortest :=
  let top := magnitude r.value r.unit
  ((List.range 17).findSome? fun (n : Nat) ↦ r.onGrid? (top - (n + 1))).getD ⟨0, 0⟩

/-- The digits without zeros at the end, and the exponent that belongs to them. -/
def Shortest.trimmed (s : Shortest) : Text × Int :=
  let digits := Nat.toDigits 10 s.digits
  let kept := (digits.reverse.dropWhile (· == '0')).reverse
  (kept, s.exponent + (digits.length - kept.length : Nat))

/-- An exponent with its sign and at least two digits. -/
def exponentText (e : Int) : Text :=
  let digits := Nat.toDigits 10 e.natAbs
  (if e < 0 then '-' else '+') :: (if digits.length < 2 then '0' :: digits else digits)

/-- The text of a positive decimal: positional from `10 ^ (-4)` to below `10 ^ 16`, with a digit
on both sides of the point, and otherwise with one digit before the point. -/
def Shortest.text (s : Shortest) : Text :=
  let (digits, exponent) := s.trimmed
  let point : Int := digits.length + exponent
  if -4 < point ∧ point ≤ 16 then
    if point ≤ 0 then "0.".toList ++ List.replicate (-point).toNat '0' ++ digits
    else if exponent < 0 then
      digits.take point.toNat ++ '.' :: digits.drop point.toNat
    else digits ++ List.replicate exponent.toNat '0' ++ ".0".toList
  else
    let mantissa := match digits with
      | first :: second :: more => first :: '.' :: second :: more
      | short => short
    mantissa ++ 'e' :: exponentText (point - 1)

/-- The text of a number of double precision. With the least mantissa, the neighbour below is at half
the step, unless there is no smaller exponent. -/
def floatText (x : Float) : Text :=
  let signed (negative : Bool) (t : Text) : Text := if negative then '-' :: t else t
  match Binary.ofFloat x with
  | .notANumber => "nan".toList
  | .infinite negative => signed negative "inf".toList
  | .finite negative mantissa exponent =>
      signed negative
        (if mantissa = 0 then "0.0".toList
         else
          let shortStep := mantissa == exponentStep && exponent != leastExponent
          (Rounding.ofBinary mantissa exponent shortStep).shortest.text)

end SparqlComposer.Decimal
