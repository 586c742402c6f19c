import JustfileServer.Rpc.Fault
import JustfileServer.Navigation.Position

/-!
# Parameters as they come

A client may send anything as the parameters of a message.  Whatever is left out has a default;
what is there is taken as it is, and is a fault only when it is used for something that a value of
its kind does not admit.
-/

namespace JustfileServer.Params

/-- The member of an object, or the default when it has none of that name. -/
def member (v : Json) (name : Text) (default : Json) : Except Fault Json :=
  match v with
  | .obj members => .ok ((Json.member? members name).getD default)
  | v => .error (.notObject v.kind)

/-- The name of the document that the parameters are about. -/
def documentName (document : Json) : Except Fault Json := member document "uri" (.str [])

/-- The object that describes the document. -/
def document (params : Json) : Except Fault Json := member params "textDocument" (.obj [])

/-- The version of the document. -/
def version (document : Json) : Except Fault Json := member document "version" (.int 0)

/-- The text of a document or of a change. -/
def content (v : Json) : Except Fault Json := member v "text" (.str [])

/-- The text of a document, which has to be a string. -/
def text : Json → Except Fault Text
  | .str t => .ok t
  | v => .error (.notText v.kind)

/-- The first of a list of changes.  A string has a first character, and an object has no member
under the number zero. -/
def firstChange : Json → Except Fault Json
  | .arr (e :: _) => .ok e
  | .str (c :: _) => .ok (.str [c])
  | .obj _ => .error (.noMember 0)
  | v => .error (.notIndexed v.kind)

/-- The line that a position names, in a document of so many lines, or nothing when the document
has no such line.  A floating point number can lie outside the document but cannot name a line of
it. -/
def line? (count : Nat) : Json → Except Fault (Option LineNumber)
  | .int n => .ok (if n < 0 || count ≤ n then none else some (.number n))
  | .bool b => .ok (if count ≤ (if b then 1 else 0) then none else some (.flag b))
  | .float x => if x.isBelowZero || x.isAtLeast count then .ok none else .error .fractionalLine
  | v => .error (.unorderedLine v.kind)

/-- The column that a position names. -/
def column : Json → Except Fault ClientColumn
  | .int n => .ok (.units n)
  | .bool b => .ok (.units (if b then 1 else 0))
  | .float x =>
      match x.ceil? with
      | some n => .ok (.units n)
      | none => .ok (if x.isBelowZero then .units 0 else .lineEnd)
  | v => .error (.unorderedColumn v.kind)

end JustfileServer.Params
