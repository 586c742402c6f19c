import JustfileServer.Json.Value
import JustfileServer.Text.Numeral

/-!
# Reading JSON

The reader takes the longest beginning of a text that is a value and gives back what follows it.
A refusal keeps what is left of the text from the offending place on, from which `Malformed` works
out the place.  Beyond the standard it accepts `NaN`, `Infinity` and `-Infinity`, and escapes of
lone surrogates; integers have a greatest number of digits.

The depth of recursion is bounded by a number of steps.  Between two steps into the same position
lies at least one code point, so twice the length of the text and one more are always enough.
-/

namespace JustfileServer.Json

/-- Why a text is no JSON value. -/
inductive ReadCause
  | byteOrderMark
  | value
  | extraData
  | memberName
  | colon
  | comma
  | unterminatedString
  | controlCharacter
  | escape
  | unicodeEscape
  deriving DecidableEq

/-- The wording of a cause. -/
def ReadCause.message : ReadCause → Text
  | .byteOrderMark => "Unexpected UTF-8 BOM (decode using utf-8-sig)"
  | .value => "Expecting value"
  | .extraData => "Extra data"
  | .memberName => "Expecting property name enclosed in double quotes"
  | .colon => "Expecting ':' delimiter"
  | .comma => "Expecting ',' delimiter"
  | .unterminatedString => "Unterminated string starting at"
  | .controlCharacter => "Invalid control character at"
  | .escape => "Invalid \\escape"
  | .unicodeEscape => "Invalid \\uXXXX escape"

/-- A refusal to read on. -/
inductive Refusal
  /-- The text has a wrong form; `rest` is what is left of it from the offending place on. -/
  | malformed (cause : ReadCause) (rest : Text)
  /-- An integer has this number of digits, more than are read. -/
  | tooManyDigits (count : Nat)

/-- What is read from the beginning of a text, with the rest of it. -/
abbrev Reading (α : Type) := Except Refusal (α × Text)

/-- Is the code point a character of the ASCII set? -/
def isChar (c : CodePoint) (ch : Char) : Bool := c.val == ch.toNat

/-- Is the code point white space between the parts of a value? -/
def isSpace (c : CodePoint) : Bool :=
  c.val == 0x20 || c.val == 0x09 || c.val == 0x0A || c.val == 0x0D

/-- The text without the white space at its start. -/
def skipSpace (t : Text) : Text := t.dropWhile isSpace

/-! ## Strings -/

/-- The number of four hexadecimal digits. -/
def hexFour? (a b c d : CodePoint) : Option Nat := do
  let a ← Numeral.hexDigit? a
  let b ← Numeral.hexDigit? b
  let c ← Numeral.hexDigit? c
  let d ← Numeral.hexDigit? d
  return ((a * 16 + b) * 16 + c) * 16 + d

/-- The code point that a one-letter escape stands for. -/
def plainEscape? (c : CodePoint) : Option CodePoint :=
  if isChar c '"' || isChar c '\\' || isChar c '/' then some c
  else if isChar c 'b' then some (.ofNat 0x08)
  else if isChar c 'f' then some (.ofNat 0x0C)
  else if isChar c 'n' then some (.ofNat 0x0A)
  else if isChar c 'r' then some (.ofNat 0x0D)
  else if isChar c 't' then some (.ofNat 0x09)
  else none

/-- The code point of a surrogate pair. -/
def joinPair (high low : Nat) : CodePoint :=
  .ofNat (0x10000 + (high - 0xD800) * 0x400 + (low - 0xDC00))

/-- A code point of a string, and whether it was written as a numeric escape. -/
structure Written where
  point : CodePoint
  escaped : Bool

/-- The text of a string: two numeric escapes in a row that form a surrogate pair are one code
point, and all else is what it is by itself. -/
def joinPairs : List Written → Text
  | [] => []
  | [w] => [w.point]
  | v :: w :: rest =>
      if v.escaped && w.escaped && v.point.isHighSurrogate && w.point.isLowSurrogate then
        joinPair v.point.val w.point.val :: joinPairs rest
      else v.point :: joinPairs (w :: rest)

/-- Puts a code point in front of what is read. -/
def consWritten (w : Written) : Reading (List Written) → Reading (List Written)
  | .ok (ws, rest) => .ok (w :: ws, rest)
  | .error e => .error e

/-- Reads the code points of a string up to its closing quote; `opening` is the text from the
opening quote on.  A numeric escape needs its four digits and something behind them. -/
def readWritten (opening : Text) : Text → Reading (List Written)
  | [] => .error (.malformed .unterminatedString opening)
  | c :: rest =>
      if isChar c '"' then .ok ([], rest)
      else if isChar c '\\' then
        match rest with
        | [] => .error (.malformed .unterminatedString opening)
        | e :: tail =>
            if isChar e 'u' then
              match tail with
              | p :: q :: r :: s :: more =>
                  match hexFour? p q r s with
                  | some n =>
                      if more.isEmpty then .error (.malformed .unicodeEscape rest)
                      else consWritten ⟨.ofNat n, true⟩ (readWritten opening more)
                  | none => .error (.malformed .unicodeEscape rest)
              | _ => .error (.malformed .unicodeEscape rest)
            else
              match plainEscape? e with
              | none => .error (.malformed .escape (c :: rest))
              | some p => consWritten ⟨p, false⟩ (readWritten opening tail)
      else if c.val < 0x20 then .error (.malformed .controlCharacter (c :: rest))
      else consWritten ⟨c, false⟩ (readWritten opening rest)

/-- Reads a string up to its closing quote; `opening` is the text from the opening quote on. -/
def readString (opening t : Text) : Reading Text :=
  (readWritten opening t).map fun r => (joinPairs r.1, r.2)

/-! ## Numbers -/

/-- The parts of a number that is written at the beginning of a text: digits before the point,
digits behind the point, and the exponent. -/
structure NumberParts where
  negative : Bool
  whole : Text
  part : Text
  exponent : Option Int

/-- The digits at the beginning of a text and what follows them. -/
def takeDigits (t : Text) : Text × Text :=
  (t.takeWhile Numeral.isDigit, t.dropWhile Numeral.isDigit)

/-- Digits behind a point, if the text begins with both. -/
def takePart (t : Text) : Text × Text :=
  match t with
  | [] => ([], [])
  | c :: rest =>
      if isChar c '.' && !(takeDigits rest).1.isEmpty then takeDigits rest else ([], t)

/-- An exponent, if the text begins with one: a letter, an optional sign and digits. -/
def takeExponent (t : Text) : Option Int × Text :=
  match t with
  | [] => (none, [])
  | c :: rest =>
      if isChar c 'e' || isChar c 'E' then
        let signed := rest.head?.any fun s => isChar s '+' || isChar s '-'
        let negative := rest.head?.any fun s => isChar s '-'
        let (digits, after) := takeDigits (if signed then rest.drop 1 else rest)
        if digits.isEmpty then (none, t)
        else
          let size : Int := Numeral.digitsValue digits
          (some (if negative then -size else size), after)
      else (none, t)

/-- The digits before the point: a zero by itself or a run that does not start with one. -/
def takeWhole (t : Text) : Text × Text :=
  match t with
  | [] => ([], [])
  | c :: rest => if isChar c '0' then ([c], rest) else takeDigits t

/-- The value of a number: an integer when it has neither part nor exponent. -/
def NumberParts.value (p : NumberParts) : Except Refusal Json :=
  if p.part.isEmpty && p.exponent.isNone then
    if Numeral.maxDigits < p.whole.length then .error (.tooManyDigits p.whole.length)
    else
      let size : Int := Numeral.digitsValue p.whole
      .ok (.int (if p.negative then -size else size))
  else
    .ok (.float (.ofDecimal p.negative (Numeral.digitsValue (p.whole ++ p.part))
      (p.exponent.getD 0 - p.part.length)))

/-- Reads a number. -/
def readNumber (t : Text) : Reading Json :=
  let negative := t.head?.any fun c => isChar c '-'
  let (whole, afterWhole) := takeWhole (if negative then t.drop 1 else t)
  if whole.isEmpty then .error (.malformed .value t)
  else
    let (part, afterPart) := takePart afterWhole
    let (exponent, rest) := takeExponent afterPart
    (NumberParts.value ⟨negative, whole, part, exponent⟩).map fun v => (v, rest)

/-! ## Words -/

/-- The words that are values. -/
def words : List (Text × Json) :=
  [("null", .null), ("true", .bool true), ("false", .bool false), ("NaN", .float .nan),
    ("Infinity", .float (.infinite false)), ("-Infinity", .float (.infinite true))]

/-- The value of a word at the beginning of a text, and what follows it. -/
def readWord? (t : Text) : Option (Json × Text) :=
  words.findSome? fun w => if w.1.isPrefixOf t then some (w.2, t.drop w.1.length) else none

/-! ## Values -/

mutual

/-- Reads a value that starts at the beginning of the text. -/
def readValue : Nat → Text → Except Refusal (Json × Text)
  | 0, t => .error (.malformed .value t)
  | _ + 1, [] => .error (.malformed .value [])
  | steps + 1, c :: rest =>
      if isChar c '"' then (readString (c :: rest) rest).map fun r => (.str r.1, r.2)
      else if isChar c '\x7b' then
        match skipSpace rest with
        | [] => .error (.malformed .memberName [])
        | d :: more =>
            if isChar d '\x7d' then .ok (.obj [], more)
            else (readMembers steps (d :: more)).map fun r => (.obj (mergeMembers r.1), r.2)
      else if isChar c '[' then
        match skipSpace rest with
        | [] => .error (.malformed .value [])
        | d :: more =>
            if isChar d ']' then .ok (.arr [], more)
            else (readElements steps (d :: more)).map fun r => (.arr r.1, r.2)
      else
        match readWord? (c :: rest) with
        | some r => .ok r
        | none => readNumber (c :: rest)

/-- Reads the elements of an array from the first of the remaining ones to the closing bracket. -/
def readElements : Nat → Text → Except Refusal (List Json × Text)
  | 0, t => .error (.malformed .value t)
  | steps + 1, t => do
      let (value, after) ← readValue steps t
      match skipSpace after with
      | [] => .error (.malformed .comma [])
      | d :: more =>
          if isChar d ']' then return ([value], more)
          else if isChar d ',' then
            let (values, rest) ← readElements steps (skipSpace more)
            return (value :: values, rest)
          else .error (.malformed .comma (d :: more))

/-- Reads the members of an object from the name of the first of the remaining ones to the closing
brace. -/
def readMembers : Nat → Text → Except Refusal (List (Text × Json) × Text)
  | 0, t => .error (.malformed .memberName t)
  | _ + 1, [] => .error (.malformed .memberName [])
  | steps + 1, c :: rest =>
      if isChar c '"' then do
        let (name, afterName) ← readString (c :: rest) rest
        match skipSpace afterName with
        | [] => .error (.malformed .colon [])
        | d :: more =>
            if isChar d ':' then
              let (value, after) ← readValue steps (skipSpace more)
              match skipSpace after with
              | [] => .error (.malformed .comma [])
              | e :: others =>
                  if isChar e '\x7d' then return ([(name, value)], others)
                  else if isChar e ',' then
                    let (members, final) ← readMembers steps (skipSpace others)
                    return ((name, value) :: members, final)
                  else .error (.malformed .comma (e :: others))
            else .error (.malformed .colon (d :: more))
      else .error (.malformed .memberName (c :: rest))

end

/-- Reads a text that holds a value and nothing else but white space. -/
def readAll (t : Text) : Except Refusal Json :=
  if t.head? = some (.ofNat 0xFEFF) then .error (.malformed .byteOrderMark t)
  else
    match readValue (2 * t.length + 1) (skipSpace t) with
    | .error e => .error e
    | .ok (value, after) =>
        match skipSpace after with
        | [] => .ok value
        | c :: rest => .error (.malformed .extraData (c :: rest))

/-- A text that is no JSON value: the cause, and the index of the offending code point. -/
structure Malformed where
  text : Text
  cause : ReadCause
  index : Nat

namespace Malformed

/-- The part of the text before the offending place. -/
def before (m : Malformed) : Text := m.text.take m.index

/-- The line of the offending place, counted from one. -/
def line (m : Malformed) : Nat := m.before.count (.ofChar '\n') + 1

/-- The column of the offending place, counted from one. -/
def column (m : Malformed) : Nat :=
  (m.before.reverse.takeWhile (· != .ofChar '\n')).length + 1

/-- Says what was expected, and where. -/
def message (m : Malformed) : Text :=
  m.cause.message ++ Text.ofString ": line " ++ Numeral.decimal m.line ++ Text.ofString " column "
    ++ Numeral.decimal m.column ++ Text.ofString " (char " ++ Numeral.decimal m.index
    ++ Text.ofString ")"

end Malformed

/-- Why a text was not read. -/
inductive ReadFault
  | malformed (m : Malformed)
  | tooManyDigits (count : Nat)

/-- Reads the JSON value of a text. -/
def ofText (t : Text) : Except ReadFault Json :=
  match readAll t with
  | .ok value => .ok value
  | .error (.malformed cause rest) => .error (.malformed ⟨t, cause, t.length - rest.length⟩)
  | .error (.tooManyDigits count) => .error (.tooManyDigits count)

end JustfileServer.Json
