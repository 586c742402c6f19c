import JustfileServer.Rpc.Dispatcher
import JustfileServer.Navigation.Cursor

/-!
# Open documents

A document is kept under the name that the client gives it, normally a string.  Any scalar will
do, and scalars that are equal in value are the same name: one, one point zero and true are.  The
table keeps the name under which an entry was first made, while a document has the name that it
came with itself.
-/

namespace JustfileServer

/-- An open document: its text read and indexed. -/
structure Document where
  uri : Json
  version : Json
  justfile : Justfile
  index : SymbolIndex

namespace Document

/-- The document of a text. -/
def ofText (uri : Json) (text : Text) (version : Json) : Document :=
  let j := Justfile.ofText text
  ⟨uri, version, j, .ofJustfile j⟩

end Document

/-- What tells the names of documents apart. -/
inductive DocumentKey
  | null
  | text (t : Text)
  | integer (n : Int)
  | number (x : Binary64)
  deriving DecidableEq

namespace DocumentKey

/-- The key of a name, which arrays and objects do not have. -/
def ofJson : Json → Except Fault DocumentKey
  | .null => .ok .null
  | .bool b => .ok (.integer (if b then 1 else 0))
  | .int n => .ok (.integer n)
  | .float x =>
      match x.toInt? with
      | some n => .ok (.integer n)
      | none => .ok (.number x)
  | .str t => .ok (.text t)
  | .arr _ => .error (.notKey .arr)
  | .obj _ => .error (.notKey .obj)

end DocumentKey

/-- An entry of the table: the key, the name that it was made under, and the document. -/
structure DocumentEntry where
  key : DocumentKey
  name : Json
  document : Document

/-- The open documents in the order in which their entries were made. -/
abbrev DocumentTable := List DocumentEntry

namespace DocumentTable

/-- The document under a key. -/
def find? (table : DocumentTable) (key : DocumentKey) : Option Document :=
  match table with
  | [] => none
  | e :: rest => if e.key = key then some e.document else find? rest key

/-- The table with a document put under a key: in place of the present one, or at the end. -/
def put (table : DocumentTable) (key : DocumentKey) (d : Document) : DocumentTable :=
  match table with
  | [] => [⟨key, d.uri, d⟩]
  | e :: rest => if e.key = key then { e with document := d } :: rest else e :: put rest key d

/-- The table without the document under a key. -/
def erase (table : DocumentTable) (key : DocumentKey) : DocumentTable :=
  table.filter fun e => e.key != key

end DocumentTable

end JustfileServer
