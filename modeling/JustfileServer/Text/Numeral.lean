import JustfileServer.Text.CodePoint

/-!
# Numerals

Decimal and hexadecimal numerals as text.  `decimal` and `ofInt` write a number, `digitsValue`
reads a run of digits, and `integer?` reads the loose form in which header values give a number:
an optional sign, then digits among which single underscores may stand.
-/

namespace JustfileServer.Numeral

/-- An integer is neither read from nor written with more decimal digits than this. -/
def maxDigits : Nat := 4300

/-- Is it one of the ten ASCII digits? -/
def isDigit (c : CodePoint) : Bool := 0x30 ≤ c.val && c.val ≤ 0x39

/-- The decimal numeral of a natural number. -/
def decimal (n : Nat) : Text := (Nat.toDigits 10 n).map CodePoint.ofChar

/-- The decimal numeral of an integer. -/
def ofInt : Int → Text
  | .ofNat n => decimal n
  | .negSucc n => CodePoint.ofChar '-' :: decimal (n + 1)

/-- The number that a run of decimal digits stands for. -/
def digitsValue (digits : Text) : Nat := digits.foldl (fun n c => 10 * n + (c.val - 0x30)) 0

/-- The value of a hexadecimal digit of either case. -/
def hexDigit? (c : CodePoint) : Option Nat :=
  if 0x30 ≤ c.val && c.val ≤ 0x39 then some (c.val - 0x30)
  else if 0x61 ≤ c.val && c.val ≤ 0x66 then some (c.val - 0x61 + 10)
  else if 0x41 ≤ c.val && c.val ≤ 0x46 then some (c.val - 0x41 + 10)
  else none

/-- The lower-case hexadecimal numeral of the given width; higher digits are left out. -/
def hex : Nat → Nat → Text
  | 0, _ => []
  | width + 1, n => hex width (n / 16) ++ [CodePoint.ofChar (Nat.digitChar (n % 16))]

/-- Digits, with a single underscore allowed between any two of them: the digits without the
underscores. -/
def digitRun? : Text → Option Text
  | [] => none
  | [c] => if isDigit c then some [c] else none
  | c :: d :: rest =>
      if isDigit c then
        if d = CodePoint.ofChar '_' then (digitRun? rest).map (c :: ·)
        else (digitRun? (d :: rest)).map (c :: ·)
      else none

/-- A natural number in its loose form, of no more than `maxDigits` digits. -/
def natural? (t : Text) : Option Nat :=
  match digitRun? t with
  | some digits => if digits.length ≤ maxDigits then some (digitsValue digits) else none
  | none => none

/-- An integer in its loose form: a natural number after an optional sign. -/
def integer? : Text → Option Int
  | [] => none
  | c :: rest =>
      if c = CodePoint.ofChar '-' then (natural? rest).map fun n => -(n : Int)
      else if c = CodePoint.ofChar '+' then (natural? rest).map fun n => (n : Int)
      else (natural? (c :: rest)).map fun n => (n : Int)

end JustfileServer.Numeral
