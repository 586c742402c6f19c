import JustfileServer.Rpc.Error
import JustfileServer.Text.Utf8
import JustfileServer.Text.Quoted

/-!
# Faults

What can go wrong while a message is read, handled or answered.  A client may send any value in
any place, so most faults are about a value of the wrong kind.  Each fault has a message, and a
fuller description that names its class, for the journal.
-/

namespace JustfileServer

/-- Why handling a message went wrong. -/
inductive Fault
  /-- A value whose members are asked for is no object. -/
  | notObject (kind : JsonKind)
  /-- A value that has to be a document's text is no string. -/
  | notText (kind : JsonKind)
  /-- A request handler gave no outcome. -/
  | noOutcome
  /-- A value whose first element is asked for has no elements. -/
  | notIndexed (kind : JsonKind)
  /-- An object has no member of this number. -/
  | noMember (index : Nat)
  /-- A value cannot be the key of a table. -/
  | notKey (kind : JsonKind)
  /-- A line is of a kind that has no order. -/
  | unorderedLine (kind : JsonKind)
  /-- A column is of a kind that has no order. -/
  | unorderedColumn (kind : JsonKind)
  /-- A line is a floating point number. -/
  | fractionalLine
  /-- An integer has more digits than are read. -/
  | tooManyDigits (count : Nat)
  /-- An integer has more digits than are written. -/
  | longInteger
  /-- A text has no encoding. -/
  | unencodable (f : Utf8.EncodeFault)
  /-- Bytes encode no text. -/
  | undecodable (f : Utf8.DecodeFault)
  /-- A handler refused its value, in words of its own. -/
  | invalid (message : Text)
  /-- A handler asks for a certain error in the reply. -/
  | remote (e : RpcError)

namespace Fault

/-- The words about a value that lacks something. -/
def lacking (kind : JsonKind) (name : Text) : Text :=
  Text.ofString "'" ++ kind.label ++ Text.ofString "' object has no attribute '" ++ name
    ++ Text.ofString "'"

/-- The words about two values that have no order. -/
def unordered (sign left right : Text) : Text :=
  Text.ofString "'" ++ sign ++ Text.ofString "' not supported between instances of '" ++ left
    ++ Text.ofString "' and '" ++ right ++ Text.ofString "'"

/-- The message of a fault. -/
def message : Fault → Text
  | .notObject kind => lacking kind "get"
  | .notText kind => lacking kind "encode"
  | .noOutcome => lacking .null "value"
  | .notIndexed kind =>
      Text.ofString "'" ++ kind.label ++ Text.ofString "' object is not subscriptable"
  | .noMember index => Numeral.decimal index
  | .notKey kind => Text.ofString "unhashable type: '" ++ kind.label ++ Text.ofString "'"
  | .unorderedLine kind => unordered "<" kind.label (JsonKind.label .int)
  | .unorderedColumn kind => unordered ">=" (JsonKind.label .int) kind.label
  | .fractionalLine => "list indices must be integers or slices, not float"
  | .tooManyDigits count =>
      Text.ofString "Exceeds the limit (" ++ Numeral.decimal Numeral.maxDigits
        ++ Text.ofString " digits) for integer string conversion: value has "
        ++ Numeral.decimal count
        ++ Text.ofString " digits; use sys.set_int_max_str_digits() to increase the limit"
  | .longInteger =>
      Text.ofString "Exceeds the limit (" ++ Numeral.decimal Numeral.maxDigits
        ++ Text.ofString " digits) for integer string conversion; use "
        ++ Text.ofString "sys.set_int_max_str_digits() to increase the limit"
  | .unencodable f => f.message
  | .undecodable f => f.message
  | .invalid message => message
  | .remote e => e.message

/-- The name of a fault's class. -/
def className : Fault → Text
  | .notObject _ | .notText _ | .noOutcome => "AttributeError"
  | .notIndexed _ | .notKey _ | .unorderedLine _ | .unorderedColumn _ | .fractionalLine =>
      "TypeError"
  | .noMember _ => "KeyError"
  | .tooManyDigits _ | .longInteger | .invalid _ => "ValueError"
  | .unencodable _ => "UnicodeEncodeError"
  | .undecodable _ => "UnicodeDecodeError"
  | .remote _ => "JsonRpcError"

/-- What stands between the parentheses when a fault is described. -/
def details : Fault → List Text
  | .noMember index => [Numeral.decimal index]
  | .unencodable f =>
      [Quoted.quote "utf-8", Quoted.quote f.text, Numeral.decimal f.start, Numeral.decimal f.stop,
        Quoted.quote "surrogates not allowed"]
  | f => [Quoted.quote f.message]

/-- The description of a fault: its class with the details. -/
def describe (f : Fault) : Text :=
  f.className ++ Text.ofString "(" ++ Text.join ", " f.details ++ Text.ofString ")"

end Fault

end JustfileServer
