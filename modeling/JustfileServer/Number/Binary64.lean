/-!
# Binary floating point numbers of 64 bits

A finite number is a sign, a mantissa below `2 ^ 53` and a power of two.  Each finite value has one
representation up to the sign of zero: the mantissa has 53 bits unless the exponent is the least
one.  Everything is computed in exact integer arithmetic; `ofDecimal` rounds a decimal fraction to
the nearest number, a tie going to the even mantissa.
-/

namespace JustfileServer

/-- A floating point number; a finite one stands for `mantissa * 2 ^ exponent` with its sign. -/
inductive Binary64
  | nan
  | infinite (negative : Bool)
  | finite (negative : Bool) (mantissa : Nat) (exponent : Int)
  deriving DecidableEq

namespace Binary64

/-- The least exponent of a finite number. -/
def minExponent : Int := -1074

/-- The greatest exponent of a finite number. -/
def maxExponent : Int := 971

/-- All mantissas are below this number, two to the power of 53. -/
def mantissaBound : Nat := Nat.pow 2 53

/-- The quotient rounded to the nearest natural number, a tie going to the even one. -/
def divideNearest (n d : Nat) : Nat :=
  let quotient := n / d
  let rest := 2 * (n % d)
  if d < rest || (rest == d && quotient % 2 == 1) then quotient + 1 else quotient

/-- A power of the base as a fraction: the numerator and the denominator. -/
def powerFraction (base : Nat) (exponent : Int) : Nat × Nat :=
  (Nat.pow base exponent.toNat, Nat.pow base (-exponent).toNat)

/-- The number of the sign that is nearest to a positive fraction. -/
def ofFraction (negative : Bool) (n d : Nat) : Binary64 :=
  let estimate : Int := (Nat.log2 n : Int) - Nat.log2 d - 53
  let lower := max estimate minExponent
  let scale := powerFraction 2 lower
  let exponent :=
    if n * scale.2 / (d * scale.1) < mantissaBound then lower else lower + 1
  let unit := powerFraction 2 exponent
  let mantissa := divideNearest (n * unit.2) (d * unit.1)
  let result :=
    if mantissa = mantissaBound then (mantissaBound / 2, exponent + 1) else (mantissa, exponent)
  if maxExponent < result.2 then .infinite negative else .finite negative result.1 result.2

/-- The number nearest to `digits * 10 ^ exponent` with the sign.  A decimal fraction that is
clearly beyond all finite numbers, or clearly nearer to zero than to any other number, is not
computed with. -/
def ofDecimal (negative : Bool) (digits : Nat) (exponent : Int) : Binary64 :=
  if digits = 0 then .finite negative 0 minExponent
  else if 400 < exponent then .infinite negative
  else if exponent + (Nat.log2 digits / 3 : Nat) + 1 < -400 then .finite negative 0 minExponent
  else
    let power := powerFraction 10 exponent
    ofFraction negative (digits * power.1) power.2

/-- The least integer not below a finite number; the other numbers have none. -/
def ceil? : Binary64 → Option Int
  | .finite negative mantissa exponent =>
      let scale := powerFraction 2 exponent
      let n : Int := if negative then -(mantissa * scale.1 : Nat) else (mantissa * scale.1 : Nat)
      some (-(-n / (scale.2 : Int)))
  | _ => none

/-- The integer that a number is equal to, if there is one. -/
def toInt? (x : Binary64) : Option Int :=
  match x, x.ceil? with
  | .finite _ mantissa exponent, some n =>
      let scale := powerFraction 2 exponent
      if mantissa * scale.1 = n.natAbs * scale.2 then some n else none
  | _, _ => none

/-- Is the number below zero? -/
def isBelowZero : Binary64 → Bool
  | .nan => false
  | .infinite negative => negative
  | .finite negative mantissa _ => negative && mantissa != 0

/-- Is the number at least as great as the natural number? -/
def isAtLeast (x : Binary64) (n : Nat) : Bool :=
  match x with
  | .nan => false
  | .infinite negative => !negative
  | .finite negative mantissa exponent =>
      let scale := powerFraction 2 exponent
      n * scale.2 ≤ mantissa * scale.1 && (!negative || (mantissa == 0 && n == 0))

/-- Are two numbers equal in value?  Both zeros are, and a number that is none equals itself. -/
def sameValue : Binary64 → Binary64 → Bool
  | .finite s m e, .finite s' m' e' => m == m' && (m == 0 || (s == s' && e == e'))
  | x, y => x == y

end Binary64

end JustfileServer
