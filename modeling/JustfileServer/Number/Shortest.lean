import JustfileServer.Number.Binary64
import JustfileServer.Text.Numeral

/-!
# The shortest decimal text of a number

Among the decimal fractions that round to a given number, the fewest digits are taken, and of
those the fraction nearest to the number, a tie going to the even digit.  A layout says how the
digits are set down.
-/

namespace JustfileServer

/-- A decimal fraction: `digits * 10 ^ exponent`. -/
structure DecimalFraction where
  digits : Nat
  exponent : Int

namespace Binary64

/-- The number of digits before the decimal point of a positive fraction; for one below one tenth
it is minus the number of zeros behind the point. -/
def decimalPoint (n d : Nat) : Int :=
  if d ≤ n then (Nat.toDigits 10 (n / d)).length
  else 1 - (Nat.toDigits 10 (d / n)).length

/-- The decimal fraction of `count` digits nearest to `mantissa * 2 ^ exponent`, if it rounds to
that number.  All values are compared as multiples of a quarter of the last bit: the number itself
is `4 * mantissa`, and what rounds to it reaches half a bit to either side, but only a quarter
downwards where the numbers below it are closer together. -/
def candidate? (mantissa : Nat) (exponent point : Int) (count : Nat) : Option DecimalFraction :=
  let two := powerFraction 2 (exponent - 2)
  let ten := powerFraction 10 (point - count)
  let step := ten.1 * two.2
  let scale := two.1 * ten.2
  let value := 4 * mantissa * scale
  let narrow := mantissa == mantissaBound / 2 && minExponent < exponent
  let low := (4 * mantissa - if narrow then 1 else 2) * scale
  let high := (4 * mantissa + 2) * scale
  let inside (c : Nat) : Bool :=
    if mantissa % 2 = 0 then low ≤ c * step && c * step ≤ high
    else low < c * step && c * step < high
  let below := value / step
  let fraction (c : Nat) : DecimalFraction := ⟨c, point - count⟩
  let gapBelow := value - below * step
  let gapAbove := (below + 1) * step - value
  let belowIsNearer := gapBelow < gapAbove || (gapBelow == gapAbove && below % 2 == 0)
  match inside below, inside (below + 1) with
  | true, true => some (fraction (if belowIsNearer then below else below + 1))
  | true, false => some (fraction below)
  | false, true => some (fraction (below + 1))
  | false, false => none

/-- The shortest decimal fraction that rounds to `mantissa * 2 ^ exponent`, a number above zero;
seventeen digits are always enough. -/
def shortest (mantissa : Nat) (exponent : Int) : DecimalFraction :=
  let scale := powerFraction 2 exponent
  let point := decimalPoint (mantissa * scale.1) scale.2
  ((List.range 17).findSome? fun i => candidate? mantissa exponent point (i + 1)).getD ⟨0, 0⟩

end Binary64

/-- How a number is set down. -/
structure NumberLayout where
  /-- The least power of ten of the first digit for which the digits are written out. -/
  leastPositional : Int
  /-- The least power of ten from which on an exponent is written. -/
  leastExponential : Int
  /-- The text of a value that is no number. -/
  nan : Text
  /-- The text of infinity, without a sign. -/
  infinity : Text

namespace NumberLayout

/-- Digits without a point and the place of the point among them, set down with a point. -/
def positional (digits : Text) (point : Int) : Text :=
  let zero := CodePoint.ofChar '0'
  if point ≤ 0 then
    Text.ofString "0." ++ List.replicate (-point).toNat zero ++ digits
  else
    let whole := digits.take point.toNat
    let part := digits.drop point.toNat
    whole ++ List.replicate (point.toNat - digits.length) zero ++ Text.ofString "."
      ++ (if part.isEmpty then [zero] else part)

/-- Digits and the power of ten of the first of them, set down with a signed exponent of at least
two digits. -/
def exponential (digits : Text) (power : Int) : Text :=
  let part := digits.drop 1
  let size := Numeral.decimal power.natAbs
  digits.take 1 ++ (if part.isEmpty then [] else Text.ofString "." ++ part)
    ++ Text.ofString (if power < 0 then "e-" else "e+")
    ++ List.replicate (2 - size.length) (CodePoint.ofChar '0') ++ size

/-- The text of a decimal fraction above zero. -/
def fraction (layout : NumberLayout) (f : DecimalFraction) : Text :=
  let all := Numeral.decimal f.digits
  let zero := CodePoint.ofChar '0'
  let digits := (all.reverse.dropWhile (· == zero)).reverse
  let point : Int := all.length + f.exponent
  if layout.leastPositional ≤ point - 1 && point - 1 < layout.leastExponential then
    positional digits point
  else exponential digits (point - 1)

/-- The text of a number. -/
def render (layout : NumberLayout) : Binary64 → Text
  | .nan => layout.nan
  | .infinite negative => Text.ofString (if negative then "-" else "") ++ layout.infinity
  | .finite negative mantissa exponent =>
      Text.ofString (if negative then "-" else "")
        ++ if mantissa = 0 then Text.ofString "0.0"
          else layout.fraction (Binary64.shortest mantissa exponent)

end NumberLayout

end JustfileServer
