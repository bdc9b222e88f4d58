/-!
# Binary numbers

A number of double precision is taken apart into its sign and `mantissa * 2 ^ exponent`, which is
exact.
-/

namespace SparqlComposer.Decimal

/-- A number of double precision, taken apart. -/
inductive Binary where
  | finite (negative : Bool) (mantissa : Nat) (exponent : Int)
  | infinite (negative : Bool)
  | notANumber

/-- The step between the exponents in the bits of a number; the mantissa of every number that is not
too close to zero is this at least. -/
def exponentStep : Nat := 0x10000000000000

def leastExponent : Int := -1074

namespace Binary

def ofFloat (x : Float) : Binary :=
  let bits := x.toBits.toNat
  let magnitude := bits % (2048 * exponentStep)
  let negative := magnitude < bits
  let biased := magnitude / exponentStep
  let fraction := magnitude % exponentStep
  if biased = 2047 then if fraction = 0 then infinite negative else notANumber
  else if biased = 0 then finite negative fraction leastExponent
  else finite negative (exponentStep + fraction) (leastExponent + (biased - 1 : Nat))

def toInt? : Binary → Option Int
  | finite negative mantissa exponent =>
      let unit := Nat.pow 2 (-exponent).toNat
      let n := mantissa / unit * Nat.pow 2 exponent.toNat
      if mantissa % unit = 0 then some (if negative then -n else n) else none
  | infinite _ | notANumber => none

end Binary

end SparqlComposer.Decimal
